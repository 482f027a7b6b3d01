import Flashkart.Web.Calls

/-!
# Web.Seamless

Whether the page notices that its access token has expired.

* `Seamless`        — no `apiFetch` returns a 401, the page stays signed in, and while no refresh is
  on its way the cookie is accepted.
* `expiry_unseen`   — it is so in every run in which each refresh looks up its JTI while that is the
  active one, and the answer with a superseded one does not arrive last.
* `signed_out`      — two calls that refresh at the same time: the second one revokes the family.
-/

namespace Flashkart

open Async Logic

namespace Page

variable {F : Family} {n k : Nat} {lib : AuthLib} {env : AuthEnv} {l : Actor}

/-! ## The programs -/

theorem safe_web {o : WebOp} {Q : Except Err o.Ret → Actor → Prop}
    (h : (logic F lib).Call n l (.inl o) Q) : (logic F lib).Safe n o.call l Q := by
  refine Call.mono h ?_
  rintro (e | a) l' hq
  · exact hq
  · exact hq

theorem safe_auth {o : AuthOp} {Q : Except Err o.Ret → Actor → Prop}
    (h : (logic F lib).Call n l (.inr (.inr o)) Q) : (logic F lib).Safe n o.call.inr l Q := by
  refine Call.mono h ?_
  rintro (e | a) l' hq
  · exact hq
  · exact hq

theorem safe_redis {o : KvOp String} {Q : Except Err o.Ret → Actor → Prop}
    (h : (logic F lib).Call n l (.inr (.inl o)) Q) :
    (logic F lib).Safe n (Prog.inr (o.call.inl : AuthProg o.Ret)) l Q := by
  refine Call.mono h ?_
  rintro (e | a) l' hq
  · exact hq
  · exact hq

theorem safe_fetchSession {x : Errand} : (logic F lib).Safe n fetchSession (n, x) fun r l =>
    ∃ frt data, r = .ok (.session frt data) ∧ l = (n, .renewed data) := by
  refine safe_bind.mpr ((safe_web call_fetchRefresh).mono ?_)
  rintro r l ⟨k, rfl, rfl⟩
  exact safe_web call_responseRefresh

theorem safe_apiFetch : (logic F lib).Safe n apiFetch (n, .idle) fun r _ =>
    ∃ code, r = .ok code ∧ code ≠ 401 := by
  have hfirst : (logic F lib).Safe n (fetchOnce none) (n, .idle) fun r l =>
      ∃ res, r = .ok res ∧ l = (n, .idle) := by
    refine safe_bind.mpr ((safe_web call_fetchApi).mono ?_)
    rintro r l ⟨k, rfl, rfl⟩
    exact safe_web call_response
  have hretry : ∀ data, (logic F lib).Safe n (fetchOnce (some data)) (n, .renewed data) fun r _ =>
      ∃ res, r = .ok res ∧ res.code ≠ 401 := by
    intro data
    refine safe_bind.mpr ((safe_web call_retry).mono ?_)
    rintro r l ⟨k, rfl, rfl⟩
    exact safe_web call_responseRetry
  refine safe_bind.mpr (hfirst.mono ?_)
  rintro r l ⟨res, rfl, rfl⟩
  dsimp only
  split
  · refine safe_bind.mpr (safe_fetchSession.mono ?_)
    rintro r l ⟨frt, data, rfl, rfl⟩
    refine safe_bind.mpr ((hretry data).mono ?_)
    rintro r l ⟨res', rfl, hcode⟩
    exact ⟨_, rfl, hcode⟩
  · rename_i hcode
    exact ⟨_, rfl, hcode⟩

theorem safe_silentRefresh {x : Errand} : (logic F lib).Safe n silentRefresh (n, x)
    fun _ _ => True := by
  refine safe_bind.mpr (safe_fetchSession.mono ?_)
  rintro r l ⟨frt, data, rfl, rfl⟩
  refine safe_bind.mpr ((safe_web call_setSession).mono ?_)
  rintro r l ⟨rfl, rfl⟩
  trivial

/-- The account of a handler that ends with `r` goes with the answer it sends. -/
def Replies (n k : Nat) (request : HttpRequest) (r : Except Err HttpResponse) (l : Actor) : Prop :=
  ∃ seen, l = (n, .serving k request seen) ∧ Answers seen request (match r with
    | .ok res => res
    | .error e => .status (errorMiddleware e).1)

theorem safe_handleApi {authorization : Option String} {status : Handled} :
    (logic F lib).Safe n (handle env status (.api authorization)).inr
      (n, .serving k (.api authorization) .start) (Replies n k (.api authorization)) := by
  rw [handle, Prog.bind_eq, Prog.inr_bind]
  have hauth : (logic F lib).Safe n (requireAuth authorization).inr
      (n, .serving k (.api authorization) .start) fun r l =>
        ∃ seen, l = (n, .serving k (.api authorization) seen) ∧
          ∀ e, r = .error e → seen.refused = true ∨ truthy authorization = none := by
    unfold requireAuth
    cases ht : truthy authorization with
    | none => exact ⟨.start, rfl, fun _ _ => .inr rfl⟩
    | some t =>
      rw [Prog.inr_tryCatch]
      refine safe_tryCatch.mpr ?_
      rw [verifyAccess, Prog.bind_eq, Prog.inr_bind]
      refine safe_bind.mpr ((safe_auth (call_verifyAccess ht)).mono ?_)
      rintro r l (⟨⟨sub, role, rfl⟩, rfl⟩ | ⟨⟨decoded, rfl⟩, rfl⟩)
      · exact ⟨.start, rfl, fun _ h => by cases h⟩
      · rcases decoded with _ | (⟨sub, role⟩ | q)
        · exact ⟨_, rfl, fun _ _ => .inl rfl⟩
        · exact ⟨_, rfl, fun _ h => by cases h⟩
        · exact ⟨_, rfl, fun _ _ => .inl rfl⟩
  refine safe_bind.mpr (hauth.mono ?_)
  rintro (e | a) l ⟨seen, rfl, hseen⟩
  · exact ⟨seen, rfl, _, rfl, .inr (hseen e rfl)⟩
  · exact ⟨seen, rfl, _, rfl, .inl status.2⟩

/-- `/auth/refresh` with the current token issues the next one. -/
theorem safe_handleRefresh (httl : ∃ ttl, ttlToSeconds env.JWT_REFRESH_TTL = .ok ttl)
    {t : String} (ht : t ≠ "") {status : Handled} :
    (logic F lib).Safe n (handle env status (.refresh (some t))).inr
      (n, .serving k (.refresh (some t)) .start) (Replies n k (.refresh (some t))) := by
  obtain ⟨ttl, httl⟩ := httl
  have htruthy : truthy (some t) = some t := by simp [truthy, Option.filter, ht]
  simp only [handle, refresh, htruthy, Prog.bind_eq, Prog.inr_bind, Prog.inr_tryCatch]
  refine safe_bind.mpr (safe_bind.mpr (safe_tryCatch.mpr ?_))
  rw [verifyRefresh, Prog.bind_eq, Prog.inr_bind]
  refine safe_bind.mpr ((safe_auth call_verifyRefresh).mono ?_)
  rintro r l ⟨p, hp, rfl, rfl⟩
  simp only [rotate, Prog.bind_eq, Prog.inr_bind]
  refine safe_bind.mpr ((safe_redis (call_getActiveJti hp rfl)).mono ?_)
  rintro r l ⟨hjti, rfl, rfl⟩
  have hactive : truthy (some p.jti) = some p.jti := by simp [truthy, Option.filter, hjti]
  simp only [hactive, ne_eq, not_true_eq_false, if_false, Prog.inr_bind]
  refine safe_bind.mpr ((safe_auth (call_userFindById hp)).mono ?_)
  rintro r l ⟨u, hon, rfl, rfl⟩
  have huser : (some u).filter (·.active) = some u := by simp [Option.filter, hon]
  simp only [huser, Prog.inr_bind]
  refine safe_bind.mpr ((safe_auth call_signAccess).mono ?_)
  rintro r l ⟨access, rfl, rfl⟩
  simp only [signRefresh, Prog.bind_eq, Prog.inr_bind]
  refine safe_bind.mpr (safe_bind.mpr ((safe_auth call_randomUUID).mono ?_))
  rintro r l ⟨jti, hne, rfl, rfl⟩
  refine safe_bind.mpr ((safe_auth (call_signRefresh (p := ⟨p.sub, p.fam, jti⟩) hp)).mono ?_)
  rintro r l ⟨token, rfl, rfl⟩
  simp only [httl, Prog.ofExcept, Prog.inr_ret, Prog.ret_bind]
  refine safe_bind.mpr ((safe_redis (call_saveActiveJti hp hne)).mono ?_)
  rintro r l ⟨rfl, rfl⟩
  simp only [refreshCookieMaxAge, httl, Prog.ofExcept, Prog.bind_eq, Prog.ret_bind, Prog.pure_eq,
    Prog.inr_ret]
  exact ⟨_, rfl, _, _, jti, rfl, rfl, rfl⟩

theorem safe_serve (httl : ∃ ttl, ttlToSeconds env.JWT_REFRESH_TTL = .ok ttl) {request : HttpRequest}
    {limited : Bool} {status : Handled} (hreq : ∀ frt, request = .refresh frt →
      limited = false ∧ ∃ t, frt = some t ∧ t ≠ "") :
    (logic F lib).Safe n (serve env k request limited status) (n, .serving k request .start)
      fun _ _ => True := by
  have hres : (logic F lib).Safe n (answer env request limited status)
      (n, .serving k request .start) fun r l => ∃ res seen, r = .ok res ∧
        l = (n, .serving k request seen) ∧ Answers seen request res := by
    cases limited with
    | true =>
      cases request with
      | api authorization => exact ⟨_, .start, rfl, rfl, 429, rfl, .inl (by decide)⟩
      | refresh frt => exact absurd (hreq frt rfl).1 (by decide)
    | false =>
      refine safe_tryCatch.mpr ?_
      have hhandle : (logic F lib).Safe n (handle env status request).inr
          (n, .serving k request .start) (Replies n k request) := by
        cases request with
        | api authorization => exact safe_handleApi
        | refresh frt =>
          obtain ⟨-, t, rfl, ht⟩ := hreq frt rfl
          exact safe_handleRefresh httl ht
      refine hhandle.mono ?_
      rintro (e | res) l ⟨seen, rfl, hseen⟩
      · exact ⟨_, seen, rfl, rfl, hseen⟩
      · exact ⟨_, seen, rfl, rfl, hseen⟩
  refine safe_bind.mpr (hres.mono ?_)
  rintro r l ⟨res, seen, rfl, rfl, hseen⟩
  refine safe_bind.mpr ((safe_web (call_respond hseen)).mono ?_)
  rintro r l ⟨rfl, rfl⟩
  trivial

end Page

/-! ## What is claimed, and when it holds -/

/-- A refresh with the cookie can be served now, and answers 200. -/
def Accepted (env : AuthEnv) (lib : AuthLib) (c : AppConfig) : Prop :=
  ∃ t, c.world.1.browser.cookie = some t ∧ ∀ i,
    (∃ r w', Exec (authStore lib) c.now i (refresh env (some t)) c.world.2 r w') ∧
    ∀ r w', Exec (authStore lib) c.now i (refresh env (some t)) c.world.2 r w' → authStatus r = 200

structure Seamless (env : AuthEnv) (lib : AuthLib) (F : Family) (c : AppConfig) : Prop where
  calls : ∀ t ∈ c.pool, t.req = .apiFetch → ∀ r, t.prog.result = some r →
    ∃ code, r = .ok code ∧ code ≠ 401
  page : c.world.1.browser.accessToken ≠ none ∧ c.world.1.browser.me ≠ none
  cookie : (∀ h ∈ c.world.1.calls, h.refreshing = false) → Alive F c.now c.world.2 →
    Accepted env lib c

/-- A browser that is signed in, with nothing on its way. -/
structure SignedIn (env : AuthEnv) (F : Family) (c : AppConfig) : Prop where
  pool : c.pool = []
  calls : c.world.1.calls = []
  ttl : ∃ ttl, ttlToSeconds env.JWT_REFRESH_TTL = .ok ttl
  active : c.world.2.2.active F.user.toString = true
  texts : c.world.2.2.Unambiguous
  cookie : ∃ t e, c.world.1.browser.cookie = some t ∧ t ≠ "" ∧ c.world.2.1 F.key = some e ∧
    e.value ≠ "" ∧ c.world.2.2.IsToken t (F.token e.value)
  page : c.world.1.browser.accessToken ≠ none ∧ c.world.1.browser.me ≠ none

/-- Every call is answered, and the session does not expire. -/
def honest (F : Family) : AppConfig → AppAct → Bool
  | c, .call _ f => f.isAnswered && decide (Alive F c.now c.world.2)
  | _, _ => true

/-- What a request is about to do. -/
def errand : AppReq → Errand
  | .serve k request _ _ => .serving k request .start
  | _ => .idle

instance (F : Family) (now : Nat) (w : AppWorld) (o : appSig.Op) :
    (x : Errand) → Decidable (x.Timely F now w o)
  | .serving _ (.refresh _) _ => inferInstanceAs (Decidable (_ → _))
  | .serving k (.api authorization) _ => inferInstanceAs (Decidable
      (_ → (∃ h ∈ w.1.calls[k]?, _) → ∃ d ∈ w.2.2.signed, _ ∧ authorization = some d.token ∧ _))
  | .idle | .refreshes _ | .renewed _ | .retries _ => inferInstanceAs (Decidable True)

/-- The answer of a refresh carries the active JTI, or another refresh is still on its way. -/
def inOrder (F : Family) (w : AppWorld) (k : Nat) : Bool :=
  match w.1.calls[k]? with
  | some ⟨.refresh _, _, .answered (.session frt _)⟩ =>
    decide (Current F w.2 (some frt.value)) || (w.1.calls.eraseIdx k).any HttpCall.refreshing
  | _ => true

/-- No refresh reads its token or the active JTI when it has been superseded, none is turned away by
the limiter, no request is made again with an access token that has expired, and the last answer of
a refresh to arrive is the one with the active JTI. -/
def smooth (F : Family) : AppConfig → AppAct → Bool
  | c, .call i f => honest F c (.call i f) && (c.pool[i]?).all fun t => t.prog.next.all fun o =>
      decide ((errand t.req).Timely F c.now c.world o)
  | _, .arrive (.serve _ (.refresh _) limited _) => !limited
  | c, .env (.arrive k) => inOrder F c.world k
  | _, _ => true

/-! ## The runs -/

variable {F : Family} {env : AuthEnv} {lib : AuthLib} {c₀ c : AppConfig} {w w' : AppWorld}

/-- An answer arrives. -/
theorem Session.arrive (h : Session F w) {k : Nat} {web : Web} (hok : inOrder F w k = true)
    (harrive : appEnv (.arrive k) w.1 = some web) :
    Session F (web, w.2) ∧ ∀ n, Extends n w (web, w.2) := by
  simp only [appEnv] at harrive
  split at harrive
  · rename_i request retried res hk
    cases harrive
    have hext : ∀ n, Extends n w ({ w.1.move k ⟨request, retried, .answered res⟩ (.arrived res) with
        browser := w.1.browser.receive res }, w.2) := fun n =>
      .of_set hk (fun m hm => by cases hm) rfl rfl
    have hsound := h.calls k _ hk
    have hmoved : SoundCall F w.2.2 ⟨request, retried, .arrived res⟩ := hsound.move fun _ hr => hr
    refine ⟨?_, hext⟩
    cases request with
    | api authorization =>
      obtain ⟨code, rfl, -⟩ := hsound.2 res rfl
      exact h.move hk hmoved fun hr => hr
    | refresh frt =>
      obtain ⟨cookie, data, rfl, hcookie, -⟩ := hsound.2.2 res rfl
      simp only [inOrder, hk, Bool.or_eq_true, decide_eq_true_eq, List.any_eq_true] at hok
      refine ⟨h.texts, h.active, h.entry, h.page, sound_set h.calls hmoved, hcookie, ?_⟩
      rcases hok with ⟨e, he, hpayload⟩ | ⟨x, hx, hr⟩
      · exact .inl ⟨_, e, rfl, he, AuthDb.isToken_of_payload hpayload⟩
      · obtain ⟨j, hj, hxj⟩ := List.mem_eraseIdx_iff_getElem?.mp hx
        exact .inr ⟨x, List.mem_of_getElem? ((List.getElem?_set_ne (Ne.symm hj)).trans hxj), hr⟩
  · cases harrive

/-- A request reaches its handler. -/
theorem Session.serve (h : Session F w) {n k : Nat} {request : HttpRequest} {limited : Bool}
    {status : Handled} {web : Web} (hacc : accept n (.serve k request limited status) w.1 = some web) :
    Session F (web, w.2) ∧ Extends n w (web, w.2) ∧
      Fits F (web, w.2) (n, .serving k request .start) ∧
      ∀ frt, request = .refresh frt → HeldToken F w.2.2 frt := by
  simp only [accept] at hacc
  split at hacc
  · rename_i request' retried hk
    split at hacc
    · rename_i hreq
      subst hreq
      cases hacc
      have hsound := h.calls k _ hk
      refine ⟨h.move hk (hsound.move fun _ hr => by cases hr) fun hr => ?_,
        .of_set hk (fun m hm => by cases hm) rfl rfl, ⟨retried, ?_, fun _ hp => (by cases hp),
          fun _ hp => (by cases hp), fun _ _ hp => (by cases hp), fun hp => by cases hp⟩, ?_⟩
      · cases request' with
        | api authorization => exact hr
        | refresh frt => rfl
      · exact List.getElem?_set_self (List.getElem?_eq_some_iff.mp hk).1
      · rintro frt rfl
        exact hsound.1
    · cases hacc
  · cases hacc

theorem SignedIn.session (h : SignedIn env F c) : Session F c.world := by
  obtain ⟨t, e, hcookie, ht, he, hne, htext⟩ := h.cookie
  refine ⟨h.texts, h.active, ⟨e, he, hne⟩, h.page, fun k x hx => ?_, ⟨t, _, hcookie, ht, htext⟩,
    .inl ⟨t, e, hcookie, he, htext⟩⟩
  rw [h.calls] at hx
  cases hx

namespace Page

theorem afterWeb_serving {o : WebOp} {a : o.Ret} {x : Errand} {k : Nat} {request : HttpRequest}
    {seen : Finding} (h : x.afterWeb o a = .serving k request seen) : x = .serving k request seen := by
  unfold Errand.afterWeb at h
  split at h
  · cases h
  · cases h
  · cases h
  · exact h
  · cases h

theorem after_serving {o : appSig.Op} {a : appSig.Ret o} {x : Errand} {k : Nat}
    {request : HttpRequest} {seen : Finding} (h : x.after o a = .serving k request seen) :
    ∃ seen', x = .serving k request seen' := by
  unfold Errand.after at h
  split at h
  · exact ⟨seen, afterWeb_serving h⟩
  · cases h
    exact ⟨_, rfl⟩
  · exact ⟨seen, h⟩

/-- The account of a thread has its id, and serves what the thread does. -/
theorem account_errand (t : AppThread) :
    (t.account Errand.post fun n r => (n, errand r)).1 = t.id ∧
      ∀ k request seen, (t.account Errand.post fun n r => (n, errand r)).2 =
        .serving k request seen → errand t.req = .serving k request .start := by
  obtain ⟨id, req, prog, trace⟩ := t
  induction trace with
  | nil =>
    refine ⟨rfl, fun k request seen h => ?_⟩
    cases req with
    | serve k' request' limited status => cases h; rfl
    | _ => cases h
  | cons e trace ih =>
    obtain ⟨hid, hserving⟩ := ih
    refine ⟨hid, fun k request seen h => ?_⟩
    obtain ⟨time, o, out⟩ := e
    cases out with
    | ok a =>
      obtain ⟨seen', hx⟩ := after_serving h
      exact hserving k request seen' hx
    | error e => cases h

/-- What a call is asked for depends on the request, and not on how far it has come. -/
theorem Timely.of_errand {now : Nat} {o : appSig.Op} {x y : Errand} (h : x.Timely F now w o)
    (hy : ∀ k request seen, y = .serving k request seen → x = .serving k request .start) :
    y.Timely F now w o := by
  cases y with
  | serving k request seen =>
    rw [hy k request seen rfl] at h
    cases request with
    | api authorization => exact h
    | refresh frt => exact h
  | _ => trivial

theorem seamless_outline (h0 : SignedIn env F c₀) :
    (appSystem env lib).Outline (fun c a => smooth F c a = true) c₀ (logic F lib)
      (fun n r => (n, errand r)) fun _ r out _ =>
        r = .apiFetch → ∃ code, out = .ok code ∧ code ≠ 401 where
  store := rfl
  start := ⟨h0.pool, h0.session, .zero⟩
  arrive := by
    intro c r w hr hok hacc hinv
    obtain ⟨hs, hbag⟩ := hinv
    obtain ⟨web, hweb, rfl⟩ := Option.map_eq_some_iff.mp hacc
    -- the new thread has an id of its own
    have hnew : ∀ b ∈ System.worth (logic F lib) (fun n r => (n, errand r)) c.pool,
        c.pool.length ≠ b.1 := by
      intro b hb heq
      obtain ⟨t, ht, rfl⟩ := (System.mem_worth fun _ => rfl).mp hb
      obtain ⟨i, hi⟩ := List.mem_iff_getElem?.mp ht
      have hid : t.id = i := hr.id_eq h0.pool i t hi
      have hlt := (List.getElem?_eq_some_iff.mp hi).1
      have hfirst := (account_errand t).1
      rw [show (t.account (logic F lib).post fun n r => (n, errand r)) =
        t.account Errand.post fun n r => (n, errand r) from rfl, hfirst, hid] at heq
      omega
    cases r with
    | apiFetch =>
      cases hweb
      exact ⟨⟨hs, Bag.singleton_add.mpr ⟨trivial, hnew, hbag⟩⟩, safe_apiFetch.mono fun _ _ h _ => h⟩
    | silentRefresh =>
      cases hweb
      exact ⟨⟨hs, Bag.singleton_add.mpr ⟨trivial, hnew, hbag⟩⟩,
        safe_silentRefresh.mono fun _ _ _ h => by cases h⟩
    | serve k request limited status =>
      obtain ⟨hs', hext, hfits, hheld⟩ := Session.serve hs hweb
      refine ⟨⟨hs', Bag.singleton_add.mpr ⟨hfits, hnew, fun b hb => ?_, hbag.pair⟩⟩,
        (safe_serve h0.ttl ?_).mono fun _ _ _ h => by cases h⟩
      · exact (hbag.each b hb).grow hext (hnew b hb).symm
      · rintro frt rfl
        obtain ⟨t, jti, rfl, ht, -⟩ := hheld frt rfl
        refine ⟨?_, t, rfl, ht⟩
        simpa [smooth] using hok
  tick := fun _ _ _ h => h
  env := by
    intro c g e w hok he hinv
    obtain ⟨hs, hbag⟩ := hinv
    obtain ⟨web, hweb, rfl⟩ := Option.map_eq_some_iff.mp he
    cases e with
    | arrive k =>
      obtain ⟨hs', hext⟩ := Session.arrive hs hok hweb
      exact ⟨hs', fun b hb => (hbag.each b hb).grow (hext (b.1 + 1)) (Nat.ne_of_lt (Nat.lt_succ_self _)),
        hbag.pair⟩
    | render =>
      cases hweb
      refine ⟨hs.browse rfl hs.page, fun b hb => ?_, hbag.pair⟩
      exact (hbag.each b hb).grow (n := b.1 + 1) ⟨fun _ hd => hd, fun j y hy =>
        ⟨y.transit, hy, fun _ _ h => h⟩⟩ (Nat.ne_of_lt (Nat.lt_succ_self _))
  guard := by
    intro c i f t o k hr hok ht hp _
    simp only [smooth, honest, Bool.and_eq_true, decide_eq_true_eq, ht, Option.all_some, hp,
      Prog.next] at hok
    obtain ⟨⟨hf, halive⟩, htimely⟩ := hok
    exact ⟨hf, halive, Timely.of_errand htimely (account_errand t).2⟩

end Page

section Accept

variable {F : Family} {env : AuthEnv} {lib : AuthLib} {c₀ c : AppConfig} {w : AuthWorld}
  {db : AuthDb} {now i : Nat} {t : String}

/-- There is a text that is new. -/
theorem exists_new (l : List String) : ∃ s, s ≠ "" ∧ s ∉ l := by
  obtain ⟨s, hs⟩ := Infinite.exists_notMem_finset ("" :: l).toFinset
  simp only [List.mem_toFinset, List.mem_cons, not_or] at hs
  exact ⟨s, hs⟩

theorem jwtSign_new (lib : AuthLib) (now i : Nat) (db : AuthDb) (payload : JwtPayload)
    (secret : JwtSecret) (ttl : String) :
    ∃ s, authDbStore lib now i (.jwtSign payload secret ttl) s db =
      some (s, db.sign ⟨secret, s, payload, lib.expires now ttl⟩) := by
  obtain ⟨s, hne, hs⟩ := exists_new (db.signed.map (·.token))
  refine ⟨s, if_neg (not_or.mpr ⟨hne, ?_⟩)⟩
  rintro ⟨d, hd, -, rfl, -⟩
  exact hs (List.mem_map_of_mem hd)

theorem randomUUID_fresh (lib : AuthLib) (now i : Nat) (db : AuthDb) :
    ∃ s, authDbStore lib now i .randomUUID s db = some (s, db.draw s) := by
  obtain ⟨s, hne, hs⟩ := exists_new db.drawn
  exact ⟨s, if_neg (not_or.mpr ⟨hne, hs⟩)⟩

/-- The token of the active JTI verifies while it lives. -/
theorem Holding.valid (h : Holding F w (some t)) (halive : Alive F now w)
    (htexts : w.2.Unambiguous) : ∃ e, w.1.live now F.key = some e ∧
      (w.2.signed.find? fun d => decide (d.secret = .JWT_REFRESH_SECRET ∧ d.token = t ∧
        now < d.expiry)).map (·.payload) = some (.refresh (F.token e.value)) := by
  obtain ⟨t', e, heq, he, ex, hd⟩ := h
  cases heq
  obtain ⟨hnow, hlt⟩ := halive e he
  exact ⟨e, Kv.live_eq_some.mpr ⟨he, hnow⟩, htexts.verify hd (hlt _ hd rfl rfl)⟩

section Served

variable {α : Type} {db' : AuthDb} {kv : Kv String}

theorem served_db {o : AuthOp} {k : o.Ret → AuthProg α} {p : String} {a : o.Ret}
    (hx : authDbStore lib now i o p w.2 = some (a, db'))
    (h : ∃ r w', Exec (authStore lib) now i (k a) (w.1, db') r w') :
    ∃ r w', Exec (authStore lib) now i (o.call.bind k) w r w' := by
  obtain ⟨r, w', h⟩ := h
  exact ⟨r, w', Exec.inr_op_iff.mpr ⟨p, a, db', hx, h⟩⟩

theorem served_kv {o : KvOp String} {k : o.Ret → AuthProg α} {a : o.Ret}
    (hx : kvStore now i o "" w.1 = some (a, kv))
    (h : ∃ r w', Exec (authStore lib) now i (k a) (kv, w.2) r w') :
    ∃ r w', Exec (authStore lib) now i (Prog.bind o.call.inl k) w r w' := by
  obtain ⟨r, w', h⟩ := h
  exact ⟨r, w', Exec.inl_op_iff.mpr ⟨"", a, kv, hx, h⟩⟩

theorem served_signRefresh (env : AuthEnv) (lib : AuthLib) (now i : Nat) (w : AuthWorld)
    (sub fam : String) : ∃ rt db', Exec (authStore lib) now i
    (signRefresh env sub fam) w (.ok rt) (w.1, db') := by
  obtain ⟨jti, hjti⟩ := randomUUID_fresh lib now i w.2
  obtain ⟨token, htoken⟩ := jwtSign_new lib now i (w.2.draw jti) (.refresh ⟨sub, fam, jti⟩)
    .JWT_REFRESH_SECRET env.JWT_REFRESH_TTL
  exact ⟨⟨token, jti⟩, _, Exec.inr_op_iff.mpr ⟨_, _, _, hjti, Exec.inr_op_iff.mpr
    ⟨_, _, _, htoken, .ret⟩⟩⟩

end Served

/-- A refresh with the current token can be served. -/
theorem refresh_served (httl : ∃ ttl, ttlToSeconds env.JWT_REFRESH_TTL = .ok ttl) (ht : t ≠ "")
    {e : Entry String} (hlive : w.1.live now F.key = some e) (hne : e.value ≠ "")
    (hactive : w.2.active F.user.toString = true)
    (hverify : (w.2.signed.find? fun d => decide (d.secret = .JWT_REFRESH_SECRET ∧ d.token = t ∧
      now < d.expiry)).map (·.payload) = some (.refresh (F.token e.value))) :
    ∃ r w', Exec (authStore lib) now i (refresh env (some t)) w r w' := by
  obtain ⟨ttl, httl⟩ := httl
  have htruthy : truthy (some t) = some t := by simp [truthy, Option.filter, ht]
  simp only [AuthDb.active, castObjectId_toString, Option.bind_some] at hactive
  obtain ⟨u, hu, hon⟩ := (Option.any_eq_true _ _).mp hactive
  have huser : (some u).filter (·.active) = some u := by simp [Option.filter, hon]
  have hstored : truthy ((w.1.live now F.key).map (·.value)) = some e.value := by
    simp [truthy, Option.filter, hlive, hne]
  have hpresented : Exec (authStore lib) now i (verifyRefresh t) w (.ok (F.token e.value)) w := by
    refine Exec.inr_op_iff.mpr ⟨"", _, w.2, rfl, ?_⟩
    rw [hverify]
    exact .ret
  have hrotated : ∃ r w', Exec (authStore lib) now i (rotate env (F.token e.value)) w r w' := by
    refine served_kv rfl ?_
    simp only [show familyKey (F.token e.value).sub (F.token e.value).fam = F.key from rfl, hstored]
    have hsame : ¬e.value ≠ (F.token e.value).jti := not_not.mpr rfl
    simp only [if_neg hsame]
    have hfound : authDbStore lib now i (.userFindById (F.token e.value).sub) "" w.2 =
        some (some u, w.2) := by
      show (castObjectId F.user.toString).map _ = _
      rw [castObjectId_toString, Option.map_some, hu]
    refine served_db hfound ?_
    simp only [huser]
    obtain ⟨access, haccess⟩ := jwtSign_new lib now i w.2 (.access (F.token e.value).sub u.role)
      .JWT_ACCESS_SECRET env.JWT_ACCESS_TTL
    refine served_db haccess ?_
    obtain ⟨rt, db', hrt⟩ := served_signRefresh env lib now i (w.1, w.2.sign _)
      (F.token e.value).sub (F.token e.value).fam
    obtain ⟨r, w', hrest⟩ : ∃ r w', Exec (authStore lib) now i (do
        saveActiveJti (F.token e.value).sub (F.token e.value).fam rt.jti ttl
        let maxAge ← refreshCookieMaxAge env
        return AuthRes.session ⟨rt.token, maxAge⟩ access
          ⟨(F.token e.value).sub, u.email, u.name, u.role⟩) (w.1, db') r w' := by
      refine served_kv rfl ?_
      simp only [refreshCookieMaxAge, httl]
      exact ⟨_, _, .ret⟩
    refine ⟨r, w', Exec.bind_iff.mpr (.inl ⟨rt, _, hrt, ?_⟩)⟩
    simp only [httl]
    exact hrest
  obtain ⟨r, w', hrotated⟩ := hrotated
  refine ⟨r, w', ?_⟩
  simp only [refresh, htruthy]
  exact Exec.bind_iff.mpr (.inl ⟨_, w, Exec.tryCatch_iff.mpr (.inl ⟨_, hpresented, rfl⟩), hrotated⟩)

/-- The cookie is accepted when it is the current one. -/
theorem Session.accepted (h : Session F c.world)
    (httl : ∃ ttl, ttlToSeconds env.JWT_REFRESH_TTL = .ok ttl)
    (hrest : ∀ x ∈ c.world.1.calls, x.refreshing = false) (halive : Alive F c.now c.world.2) :
    Accepted env lib c := by
  obtain ⟨t, jti, hcookie, ht, -⟩ := h.cookie
  have hholding : Holding F c.world.2 (some t) := by
    rcases h.newest with hholding | ⟨x, hx, hr⟩
    · rw [← hcookie]
      exact hholding
    · rw [hrest x hx] at hr
      cases hr
  obtain ⟨e, hlive, hverify⟩ := hholding.valid halive h.texts
  obtain ⟨e', he', hne⟩ := h.entry
  obtain rfl : e = e' := Option.some.inj ((Kv.live_eq_some.mp hlive).1.symm.trans he')
  have hvalid : c.world.2.2.valid c.now t = some (F.token e.value) := by
    obtain ⟨⟨secret, text, payload, ex⟩, hfind, hpay⟩ := Option.map_eq_some_iff.mp hverify
    obtain rfl : payload = .refresh (F.token e.value) := hpay
    simp only [AuthDb.valid, hfind]
  refine ⟨t, hcookie, fun i => ⟨refresh_served httl ht hlive hne h.active hverify, fun r w' hx => ?_⟩⟩
  rcases exec_refresh hx with ⟨-, -, hnone⟩ | ⟨t', p, heq, hp, hrotate⟩
  · have hno := hnone t rfl ht
    rw [hvalid] at hno
    cases hno
  · cases heq
    rw [hvalid] at hp
    cases hp
    have hkey : familyKey (F.token e.value).sub (F.token e.value).fam = F.key := rfl
    rcases exec_rotate hrotate with ⟨-, -, hempty⟩ | ⟨-, -, e', he', hbad⟩ | ⟨token, jti', hissues, -⟩
    · exact absurd (hempty e (hkey ▸ hlive)) hne
    · rw [hkey, hlive] at he'
      cases he'
      rcases hbad with hbad | hbad
      · exact absurd rfl hbad
      · rw [show (F.token e.value).sub = F.user.toString from rfl, h.active] at hbad
        cases hbad
    · obtain ⟨ttl, httl⟩ := httl
      obtain ⟨-, hrest⟩ := hissues
      rw [httl] at hrest
      obtain ⟨-, maxAge, access, user, rfl⟩ := hrest
      rfl

/-- **Expiry is unseen** in every run of which each step is smooth. -/
theorem expiry_unseen (h0 : SignedIn env F c₀)
    (h : (appSystem env lib).Reachable (fun c a => smooth F c a = true) c₀ c) :
    Seamless env lib F c := by
  have O := @Page.seamless_outline F env lib c₀ h0
  obtain ⟨hs, -⟩ := (O.adequate h).1
  exact ⟨fun t ht hreq r hr => O.ended h ht hr hreq, hs.page, fun hrest => hs.accepted h0.ttl hrest⟩

end Accept

/-! ## Two calls at once -/

def viewA : UserView := ⟨userA.id.toString, userA.email, userA.name, userA.role⟩

/-- The user is signed in with the token `rt0`, and the access token has just expired. -/
def signedInA : AppConfig :=
  .init 900000 (⟨⟨some "rt0", some "at0", some "at0", some viewA⟩, []⟩,
    Kv.put (fun _ => none) famA.key ⟨"jti0", 7 * day, 0⟩, ⟨[userA], ["jti0", "fam"],
      [⟨.JWT_REFRESH_SECRET, "rt0", .refresh ⟨userA.id.toString, "fam", "jti0"⟩, 7 * day⟩,
        ⟨.JWT_ACCESS_SECRET, "at0", .access userA.id.toString .buyer, 900000⟩]⟩)

theorem signedInA_entry : signedInA.world.2.1 famA.key = some ⟨"jti0", 7 * day, 0⟩ := by
  show Kv.put (fun _ => none) famA.key ⟨"jti0", 7 * day, 0⟩ famA.key = _
  exact Kv.put_eq_some.mpr (.inl ⟨rfl, rfl⟩)

theorem signedIn_signedInA : SignedIn envVars famA signedInA where
  pool := rfl
  calls := rfl
  ttl := ⟨604800, rfl⟩
  active := by decide
  texts := by unfold AuthDb.Unambiguous; decide
  cookie := ⟨"rt0", ⟨"jti0", 7 * day, 0⟩, rfl, by decide, signedInA_entry, by decide, 7 * day,
    List.mem_cons_self ..⟩
  page := ⟨nofun, nofun⟩

def appCalls (i : Nat) (choices : List String) : List AppAct :=
  choices.map fun s => .call i (.answered s)

def reached (k : Nat) (request : HttpRequest) : AppAct :=
  .arrive (.serve k request false ⟨200, by decide⟩)

/-- Two calls are refused, and each of them sends the cookie to be refreshed. -/
def bothRefused : List AppAct :=
  [.arrive .apiFetch, .arrive .apiFetch] ++ appCalls 0 [""] ++ appCalls 1 [""] ++
    [reached 0 (.api (some "at0")), reached 1 (.api (some "at0"))] ++ appCalls 2 ["", ""] ++
    appCalls 3 ["", ""] ++ [.env (.arrive 0), .env (.arrive 1)] ++ appCalls 0 ["", ""] ++
    appCalls 1 ["", ""] ++ [reached 2 (.refresh (some "rt0")), reached 3 (.refresh (some "rt0"))]

/-- The second refresh looks up the JTI after the first one has saved the next. -/
def oneAfterOther : List AppAct :=
  bothRefused ++ appCalls 4 ["", "", "", "at1", "jti1", "rt1", "", ""] ++ appCalls 5 ["", "", "", ""] ++
    [.env (.arrive 2), .env (.arrive 3)] ++ appCalls 0 ["", ""] ++ appCalls 1 ["", ""]

/-- Both look it up before any of them saves. -/
def sideBySide : List AppAct :=
  bothRefused ++ appCalls 4 ["", ""] ++ appCalls 5 ["", ""] ++
    appCalls 4 ["", "at1", "jti1", "rt1", "", ""] ++ appCalls 5 ["", "at2", "jti2", "rt2", "", ""] ++
    [.env (.arrive 2), .env (.arrive 3)] ++ appCalls 0 ["", ""] ++ appCalls 1 ["", ""] ++
    [reached 4 (.api (some "at1")), reached 5 (.api (some "at2"))] ++ appCalls 6 ["", ""] ++
    appCalls 7 ["", ""] ++ [.env (.arrive 4), .env (.arrive 5)] ++ appCalls 0 [""] ++ appCalls 1 [""]

/-- What is seen of a run: what the first two calls returned, the cookie, and whether the page is
still signed in. -/
def pageSeen (c : AppConfig) : List (Option (Option Nat)) × Option String × Bool :=
  ((c.pool.take 2).map fun t => t.prog.result.map (·.toOption), c.world.1.browser.cookie,
    c.world.1.browser.me.isSome)

theorem expiry_unseen_sideBySide :
    ∃ c, Seamless envVars authLib famA c ∧
      pageSeen c = ([some (some 200), some (some 200)], some "rt2", true) := by
  have hrun : ((appSystem envVars authLib).run (smooth famA) signedInA sideBySide).map pageSeen =
      some ([some (some 200), some (some 200)], some "rt2", true) := by decide
  obtain ⟨c, hc, hseen⟩ := Option.map_eq_some_iff.mp hrun
  exact ⟨c, expiry_unseen signedIn_signedInA (.of_run hc), hseen⟩

/-- The second refresh revokes the family, and its call signs the page out. -/
theorem signed_out :
    SignedIn envVars famA signedInA ∧
      ¬∀ c, (appSystem envVars authLib).Reachable (fun c a => honest famA c a = true) signedInA c →
        Seamless envVars authLib famA c := by
  refine ⟨signedIn_signedInA, fun h => ?_⟩
  have hrun : ((appSystem envVars authLib).run (honest famA) signedInA oneAfterOther).map pageSeen =
      some ([none, some (some 401)], some "rt1", false) := by decide
  obtain ⟨c, hc, hseen⟩ := Option.map_eq_some_iff.mp hrun
  have hme : c.world.1.browser.me.isSome = false := congrArg (·.2.2) hseen
  exact (h c (.of_run hc)).page.2 (Option.not_isSome_iff_eq_none.mp (by rw [hme]; decide))

end Flashkart
