import Flashkart.Async.Typestate
import Flashkart.Auth.Acceptance
import Flashkart.Auth.Families
import Flashkart.Web.App

/-!
# Web.Session

What a signed-in browser and its session have in common, and what each block of the page and each
call of the server does to it.

* `Current`, `Alive` — a cookie carries the JTI that is active, and that JTI is not expired.
* `Session`   — the invariant: the cookie is a token of the family, and it is the current one or a
  refresh is still on its way.
* `Errand`     — how far a thread has come. A refresh remembers what it has verified and signed.
* `Timely`    — what is asked of a call: that no refresh looks up a superseded JTI, and no retried
  request comes with an expired access token.
-/

namespace Flashkart

open Async

/-! ## Tokens -/

/-- The payload of the family's refresh token with this JTI. -/
def Family.token (F : Family) (jti : String) : RefreshPayload := ⟨F.user.toString, F.fam, jti⟩

/-- A text that is signed stands for one payload. -/
def AuthDb.Unambiguous (db : AuthDb) : Prop :=
  ∀ d ∈ db.signed, ∀ d' ∈ db.signed, d.secret = d'.secret → d.token = d'.token →
    d.payload = d'.payload

def AuthDb.IsAccess (db : AuthDb) (t : String) : Prop :=
  ∃ sub role ex, ⟨.JWT_ACCESS_SECRET, t, .access sub role, ex⟩ ∈ db.signed

def AuthDb.sign (db : AuthDb) (d : SignedToken) : AuthDb := { db with signed := d :: db.signed }

theorem AuthDb.mem_sign {db : AuthDb} {d : SignedToken} : ∀ x ∈ db.signed, x ∈ (db.sign d).signed :=
  fun _ hx => List.mem_cons_of_mem _ hx

section Tokens

variable {db db' : AuthDb} {lib : AuthLib} {now i : Nat} {p t : String}

theorem AuthDb.Unambiguous.token_inj (h : db.Unambiguous) {q r : RefreshPayload}
    (hq : db.IsToken t q) (hr : db.IsToken t r) : q = r := by
  obtain ⟨ex, hq⟩ := hq
  obtain ⟨ex', hr⟩ := hr
  exact JwtPayload.refresh.inj (h _ hq _ hr rfl rfl)

theorem AuthDb.isToken_of_payload {q : RefreshPayload} (h : db.payload t = some q) :
    db.IsToken t q := by
  simp only [AuthDb.payload] at h
  split at h
  · rename_i secret text r expiry hfind
    cases h
    have hfound := List.find?_some hfind
    simp only [decide_eq_true_eq] at hfound
    obtain ⟨rfl, rfl⟩ := hfound
    exact ⟨expiry, List.mem_of_find?_eq_some hfind⟩
  · cases h

/-- A token that has not expired verifies. -/
theorem AuthDb.Unambiguous.verify (h : db.Unambiguous) {d : SignedToken} (hd : d ∈ db.signed)
    (hlt : now < d.expiry) :
    (db.signed.find? fun x => decide (x.secret = d.secret ∧ x.token = d.token ∧
      now < x.expiry)).map (·.payload) = some d.payload := by
  cases hfind : db.signed.find? fun x => decide (x.secret = d.secret ∧ x.token = d.token ∧
      now < x.expiry) with
  | none =>
    have hno := List.find?_eq_none.mp hfind d hd
    simp [hlt] at hno
  | some x =>
    have hfound := List.find?_some hfind
    simp only [decide_eq_true_eq] at hfound
    exact congrArg some (h x (List.mem_of_find?_eq_some hfind) d hd hfound.1 hfound.2.1)

theorem jwtSign_eq {payload : JwtPayload} {secret : JwtSecret} {ttl a : String}
    (h : authDbStore lib now i (.jwtSign payload secret ttl) p db = some (a, db')) :
    a ≠ "" ∧ db' = db.sign ⟨secret, a, payload, lib.expires now ttl⟩ ∧
      (db.Unambiguous → db'.Unambiguous) := by
  simp only [authDbStore] at h
  split at h
  · cases h
  · rename_i hnew
    obtain ⟨hne, hnew⟩ := not_or.mp hnew
    cases h
    have hsame : ∀ d ∈ db.signed, d.secret = secret → d.token = p → d.payload = payload := by
      intro d hd hsecret htoken
      by_contra hpay
      exact hnew ⟨d, hd, hsecret, htoken, hpay⟩
    refine ⟨hne, rfl, fun hu d hd d' hd' hsecret htoken => ?_⟩
    rcases List.mem_cons.mp hd with rfl | hd
    · rcases List.mem_cons.mp hd' with rfl | hd'
      · rfl
      · exact (hsame d' hd' hsecret.symm htoken.symm).symm
    · rcases List.mem_cons.mp hd' with rfl | hd'
      · exact hsame d hd hsecret htoken
      · exact hu d hd d' hd' hsecret htoken

end Tokens

/-! ## The session -/

/-- The cookie carries the JTI that is the family's active one. -/
def Current (F : Family) (w : AuthWorld) (frt : Option String) : Prop :=
  ∃ e ∈ w.1 F.key, frt.bind w.2.payload = some (F.token e.value)

/-- Neither the active JTI nor its token has expired. -/
def Alive (F : Family) (now : Nat) (w : AuthWorld) : Prop :=
  ∀ e ∈ w.1 F.key, now < e.expiry ∧ ∀ d ∈ w.2.signed, d.secret = .JWT_REFRESH_SECRET →
    d.payload = .refresh (F.token e.value) → now < d.expiry

instance (F : Family) (w : AuthWorld) (frt : Option String) : Decidable (Current F w frt) :=
  inferInstanceAs (Decidable (∃ e ∈ w.1 F.key, _))

instance (F : Family) (now : Nat) (w : AuthWorld) : Decidable (Alive F now w) :=
  inferInstanceAs (Decidable (∀ e ∈ w.1 F.key, _))

def Transit.answer : Transit → Option HttpResponse
  | .answered res | .arrived res => some res
  | _ => none

/-- A refresh whose answer has not arrived. -/
def HttpCall.refreshing : HttpCall → Bool
  | ⟨.refresh _, _, .arrived _⟩ => false
  | ⟨.refresh _, _, _⟩ => true
  | ⟨.api _, _, _⟩ => false

/-- A refresh token of the family. -/
def HeldToken (F : Family) (db : AuthDb) (frt : Option String) : Prop :=
  ∃ t jti, frt = some t ∧ t ≠ "" ∧ db.IsToken t (F.token jti)

def Holding (F : Family) (w : AuthWorld) (frt : Option String) : Prop :=
  ∃ t e, frt = some t ∧ w.1 F.key = some e ∧ w.2.IsToken t (F.token e.value)

/-- The answer that renews the session. -/
def Renews (F : Family) (db : AuthDb) (res : HttpResponse) : Prop :=
  ∃ frt data, res = .session frt data ∧ HeldToken F db (some frt.value) ∧ data.accessToken ≠ "" ∧
    db.IsAccess data.accessToken

/-- What is known of a call of the page and its answer. -/
def SoundCall (F : Family) (db : AuthDb) (h : HttpCall) : Prop :=
  match h.request with
  | .refresh frt => HeldToken F db frt ∧ h.retried = false ∧
      ∀ res, h.transit.answer = some res → Renews F db res
  | .api authorization =>
      (h.retried = true → ∃ t, authorization = some t ∧ t ≠ "" ∧ db.IsAccess t) ∧
      ∀ res, h.transit.answer = some res → ∃ code, res = .status code ∧
        (h.retried = true → code ≠ 401)

structure Session (F : Family) (w : AppWorld) : Prop where
  texts : w.2.2.Unambiguous
  active : w.2.2.active F.user.toString = true
  entry : ∃ e, w.2.1 F.key = some e ∧ e.value ≠ ""
  page : w.1.browser.accessToken ≠ none ∧ w.1.browser.me ≠ none
  calls : ∀ (k : Nat) h, w.1.calls[k]? = some h → SoundCall F w.2.2 h
  cookie : HeldToken F w.2.2 w.1.browser.cookie
  newest : Holding F w.2 w.1.browser.cookie ∨ ∃ h ∈ w.1.calls, h.refreshing = true

/-! ## The threads -/

/-- What a handler has found out and signed so far; `refused` is that an access token did not
verify. -/
structure Finding where
  payload : Option RefreshPayload
  access : Option String
  token : Option (String × String)
  refused : Bool

inductive Errand where
  | idle
  | refreshes (k : Nat)
  | renewed (data : SessionData)
  | retries (k : Nat)
  | serving (k : Nat) (request : HttpRequest) (seen : Finding)

/-- A thread by its id. -/
abbrev Actor : Type := Nat × Errand

namespace Finding

def start : Finding := ⟨none, none, none, false⟩

def afterDb : (o : AuthOp) → o.Ret → Finding → Finding
  | .jwtVerify _ .JWT_REFRESH_SECRET, some (.refresh p), x => { x with payload := some p }
  | .jwtVerify _ .JWT_ACCESS_SECRET, some (.access ..), x => x
  | .jwtVerify _ .JWT_ACCESS_SECRET, _, x => { x with refused := true }
  | .jwtSign (.access ..) _ _, t, x => { x with access := some t }
  | .jwtSign (.refresh p) _ _, t, x => { x with token := some (t, p.jti) }
  | _, _, x => x

end Finding

namespace Errand

def afterWeb : (o : WebOp) → o.Ret → Errand → Errand
  | .fetchApi (some _), k, _ => .retries k
  | .fetchRefresh, k, _ => .refreshes k
  | .response _, .session _ data, .refreshes _ => .renewed data
  | .setSession _, _, x => x
  | _, _, _ => .idle

def after : (o : appSig.Op) → appSig.Ret o → Errand → Errand
  | .inl o, a, x => x.afterWeb o a
  | .inr (.inr o), a, .serving k request seen => .serving k request (seen.afterDb o a)
  | .inr _, _, x => x

def post (e : Event appSig Err) (l : Actor) : Actor :=
  (l.1, match e.out with
    | .ok a => l.2.after e.op a
    | .error _ => .idle)

end Errand

/-- What a thread has is so. -/
def Fits (F : Family) (w : AppWorld) : Actor → Prop
  | (_, .idle) => True
  | (_, .refreshes k) => ∃ h frt, w.1.calls[k]? = some h ∧ h.request = .refresh frt
  | (_, .renewed data) => data.accessToken ≠ "" ∧ w.2.2.IsAccess data.accessToken
  | (_, .retries k) => ∃ h authorization, w.1.calls[k]? = some h ∧
      h.request = .api authorization ∧ h.retried = true
  | (n, .serving k request seen) => ∃ retried, w.1.calls[k]? = some ⟨request, retried, .served n⟩ ∧
      (∀ p, seen.payload = some p → ∃ t, request = .refresh (some t) ∧ w.2.2.IsToken t p) ∧
      (∀ t, seen.access = some t → t ≠ "" ∧ w.2.2.IsAccess t) ∧
      (∀ t jti, seen.token = some (t, jti) → t ≠ "" ∧ w.2.2.IsToken t (F.token jti)) ∧
      (seen.refused = true → retried = false)

/-- From `w` to `w'` no token is forgotten, and thread `n` has changed no call that another one
serves. -/
structure Extends (n : Nat) (w w' : AppWorld) : Prop where
  signed : ∀ d ∈ w.2.2.signed, d ∈ w'.2.2.signed
  calls : ∀ (k : Nat) h, w.1.calls[k]? = some h → ∃ t, w'.1.calls[k]? = some { h with transit := t } ∧
    ∀ m, m ≠ n → h.transit = .served m → t = .served m

section Keep

variable {F : Family} {w w' : AppWorld} {db db' : AuthDb} {n : Nat}

theorem AuthDb.IsToken.mono {t : String} {p : RefreshPayload} (h : db.IsToken t p)
    (hs : ∀ d ∈ db.signed, d ∈ db'.signed) : db'.IsToken t p := by
  obtain ⟨ex, h⟩ := h
  exact ⟨ex, hs _ h⟩

theorem AuthDb.IsAccess.mono {t : String} (h : db.IsAccess t)
    (hs : ∀ d ∈ db.signed, d ∈ db'.signed) : db'.IsAccess t := by
  obtain ⟨sub, role, ex, h⟩ := h
  exact ⟨sub, role, ex, hs _ h⟩

theorem HeldToken.mono {frt : Option String} (h : HeldToken F db frt)
    (hs : ∀ d ∈ db.signed, d ∈ db'.signed) : HeldToken F db' frt := by
  obtain ⟨t, jti, hfrt, hne, ht⟩ := h
  exact ⟨t, jti, hfrt, hne, ht.mono hs⟩

theorem Renews.mono {res : HttpResponse} (h : Renews F db res)
    (hs : ∀ d ∈ db.signed, d ∈ db'.signed) : Renews F db' res := by
  obtain ⟨frt, data, hres, hfrt, hne, hdata⟩ := h
  exact ⟨frt, data, hres, hfrt.mono hs, hne, hdata.mono hs⟩

theorem SoundCall.mono {h : HttpCall} (hh : SoundCall F db h)
    (hs : ∀ d ∈ db.signed, d ∈ db'.signed) : SoundCall F db' h := by
  obtain ⟨request, retried, transit⟩ := h
  cases request with
  | refresh frt =>
    obtain ⟨hfrt, hr, hres⟩ := hh
    exact ⟨hfrt.mono hs, hr, fun res ha => (hres res ha).mono hs⟩
  | api authorization =>
    refine ⟨fun hr => ?_, hh.2⟩
    obtain ⟨t, ht, hne, haccess⟩ := hh.1 hr
    exact ⟨t, ht, hne, haccess.mono hs⟩

/-- A call that goes on with the answer it has, or without one. -/
theorem SoundCall.move {h : HttpCall} {t : Transit} (hh : SoundCall F db h)
    (ht : ∀ res, t.answer = some res → h.transit.answer = some res) :
    SoundCall F db { h with transit := t } := by
  obtain ⟨request, retried, transit⟩ := h
  cases request with
  | refresh frt => exact ⟨hh.1, hh.2.1, fun res hr => hh.2.2 res (ht res hr)⟩
  | api authorization => exact ⟨hh.1, fun res hr => hh.2 res (ht res hr)⟩

theorem Fits.grow {m : Nat} {x : Errand} (h : Fits F w (m, x)) (hg : Extends n w w') (hne : m ≠ n) :
    Fits F w' (m, x) := by
  cases x with
  | idle => trivial
  | refreshes k =>
    obtain ⟨c, frt, hc, hreq⟩ := h
    obtain ⟨t, hc', -⟩ := hg.calls k c hc
    exact ⟨_, frt, hc', hreq⟩
  | renewed data => exact ⟨h.1, h.2.mono hg.signed⟩
  | retries k =>
    obtain ⟨c, authorization, hc, hreq, hr⟩ := h
    obtain ⟨t, hc', -⟩ := hg.calls k c hc
    exact ⟨_, authorization, hc', hreq, hr⟩
  | serving k request seen =>
    obtain ⟨retried, hc, hpay, haccess, htoken, href⟩ := h
    obtain ⟨t, hc', ht⟩ := hg.calls k _ hc
    obtain rfl := ht m hne rfl
    refine ⟨retried, hc', fun p hp => ?_, fun a ha => ?_, fun a jti ha => ?_, href⟩
    · obtain ⟨text, hreq, hp⟩ := hpay p hp
      exact ⟨text, hreq, hp.mono hg.signed⟩
    · exact ⟨(haccess a ha).1, (haccess a ha).2.mono hg.signed⟩
    · exact ⟨(htoken a jti ha).1, (htoken a jti ha).2.mono hg.signed⟩

theorem Extends.of_web (hweb : w'.1 = w.1) (hs : ∀ d ∈ w.2.2.signed, d ∈ w'.2.2.signed) :
    Extends n w w' :=
  ⟨hs, fun j y hy => ⟨y.transit, by rw [hweb]; exact hy, fun _ _ h => h⟩⟩

theorem Extends.refl (w : AppWorld) : Extends n w w := .of_web rfl fun _ hd => hd

/-- What a server's call does to the stores. -/
theorem Fits.keep {l : Actor} (h : Fits F w l) (kv : Kv String)
    (hs : ∀ d ∈ w.2.2.signed, d ∈ db.signed) : Fits F (w.1, kv, db) l :=
  h.grow (.of_web (n := l.1 + 1) rfl hs) (Nat.ne_of_lt (Nat.lt_succ_self _))

end Keep

end Flashkart
