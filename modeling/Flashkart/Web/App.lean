import Flashkart.Auth.Routes

/-!
# Web.App

The page in one browser, and the server it talks to: `apiFetch`, the silent refresh at mount, the
authentication of an API request and the routes of `Auth.Routes` behind it.

* `Browser`   — what the page holds, and the refresh cookie beside it.
* `HttpCall`  — a request on its way: sent, being served, answered, and arrived.
* `WebOp`     — the synchronous blocks of the page between two `await`s, and `res.json` of the
  server. The cookie goes out as it is when the request is sent, and comes in when the answer
  arrives, whoever of the page waits for it.
* `appSystem` — any number of calls of the page, served in any order.
-/

namespace Flashkart

open Async

/-- The body of an answer of `/auth/refresh`. -/
structure SessionData where
  accessToken : String
  user : UserView
  deriving DecidableEq

/-- The cookie has the path `/auth`, so that no API request carries it. A token has no blanks: it is
what follows `Bearer` in the header. -/
inductive HttpRequest where
  | api (authorization : Option String)
  | refresh (frt : Option String)
  deriving DecidableEq

/-- An answer of `/auth/refresh` that is `ok`, or any other by its status. -/
inductive HttpResponse where
  | status (n : Nat)
  | session (frt : RefreshCookie) (data : SessionData)
  deriving DecidableEq

def HttpResponse.code : HttpResponse → Nat
  | .status n => n
  | .session .. => 200

inductive Transit where
  | sent
  | served (handler : Nat)
  | answered (res : HttpResponse)
  | arrived (res : HttpResponse)
  deriving DecidableEq

/-- `retried` is the argument of the `apiFetch` that sent it, and no part of the request. -/
structure HttpCall where
  request : HttpRequest
  retried : Bool
  transit : Transit
  deriving DecidableEq

structure Browser where
  cookie : Option String
  accessToken : Option String
  accessTokenRef : Option String
  me : Option UserView
  deriving DecidableEq

structure Web where
  browser : Browser
  calls : List HttpCall

/-! ## The page -/

/-- `fetchApi` sends an API request, and before that takes over the session it is given. `response`
waits for the answer. -/
inductive WebOp where
  | fetchApi (renewed : Option SessionData)
  | fetchRefresh
  | response (k : Nat)
  | setSession (data : Option SessionData)
  | respond (k : Nat) (res : HttpResponse)
  deriving DecidableEq

abbrev WebOp.Ret : WebOp → Type
  | .fetchApi _ => Nat
  | .fetchRefresh => Nat
  | .response _ => HttpResponse
  | .setSession _ => Unit
  | .respond .. => Unit

namespace Browser

/-- `setAccessToken` and `setMe`. -/
def setSession (b : Browser) (data : Option SessionData) : Browser :=
  { b with accessToken := data.map (·.accessToken), me := data.map (·.user) }

def renew (b : Browser) : Option SessionData → Browser
  | some data => { b.setSession (some data) with accessTokenRef := some data.accessToken }
  | none => b

/-- `Set-Cookie`. -/
def receive (b : Browser) : HttpResponse → Browser
  | .session frt _ => { b with cookie := some frt.value }
  | .status _ => b

/-- Every render writes the state to the reference. -/
def render (b : Browser) : Browser := { b with accessTokenRef := b.accessToken }

end Browser

namespace Web

def send (w : Web) (b : Browser) (request : HttpRequest) (retried : Bool) : Nat × Web :=
  (w.calls.length, ⟨b, w.calls ++ [⟨request, retried, .sent⟩]⟩)

/-- Call `k`, which is `h`, goes on to `t`. -/
def move (w : Web) (k : Nat) (h : HttpCall) (t : Transit) : Web :=
  { w with calls := w.calls.set k { h with transit := t } }

end Web

def webStore : Store ⟨WebOp, WebOp.Ret⟩ Web String
  | _, _, .fetchApi renewed, _, w =>
    let b := w.browser.renew renewed
    some (w.send b (.api (truthy b.accessTokenRef)) renewed.isSome)
  | _, _, .fetchRefresh, _, w => some (w.send w.browser (.refresh w.browser.cookie) false)
  | _, _, .response k, _, w =>
    match w.calls[k]? with
    | some ⟨_, _, .arrived res⟩ => some (res, w)
    | _ => none
  | _, _, .setSession data, _, w => some ((), { w with browser := w.browser.setSession data })
  | _, i, .respond k res, _, w =>
    match w.calls[k]? with
    | some ⟨request, retried, .served handler⟩ =>
      if handler = i then some ((), w.move k ⟨request, retried, .served handler⟩ (.answered res))
      else none
    | _ => none

abbrev appSig : Sig := Sig.sum ⟨WebOp, WebOp.Ret⟩ authSig

abbrev AppProg (α : Type) : Type := Prog appSig Err α

abbrev AppWorld : Type := Web × AuthWorld

def WebOp.call (o : WebOp) : AppProg o.Ret := Prog.inl (@Prog.op ⟨WebOp, WebOp.Ret⟩ Err o)

def fetchOnce (renewed : Option SessionData) : AppProg HttpResponse := do
  let k ← (WebOp.fetchApi renewed).call
  (WebOp.response k).call

def fetchSession : AppProg HttpResponse := do
  let k ← WebOp.fetchRefresh.call
  (WebOp.response k).call

/-- The status of the answer `apiFetch` returns. -/
def apiFetch : AppProg Nat := do
  let res ← fetchOnce none
  if res.code = 401 then
    let r ← fetchSession
    match r with
    | .session _ data =>
      let res ← fetchOnce (some data)
      return res.code
    | .status _ =>
      (WebOp.setSession none).call
      return res.code
  else return res.code

/-- The effect that runs when the page is mounted. -/
def silentRefresh : AppProg Nat := do
  let res ← fetchSession
  match res with
  | .session _ data =>
    (WebOp.setSession (some data)).call
    return res.code
  | .status _ => return res.code

/-! ## The server -/

def verifyAccess (token : String) : AuthProg (String × Role) := do
  let decoded ← (AuthOp.jwtVerify token .JWT_ACCESS_SECRET).call
  match decoded with
  | none => .throw (.error "invalid token")
  | some (.refresh _) => .throw (.error "wrong token type")
  | some (.access sub role) => return (sub, role)

def requireAuth (authorization : Option String) : AuthProg (String × Role) :=
  match truthy authorization with
  | none => .throw (.app (unauthenticated "missing access token"))
  | some token => (verifyAccess token).tryCatch fun _ =>
      .throw (.app (unauthenticated "invalid or expired access token"))

/-- What a handler behind `requireAuth` answers: none of them throws `unauthenticated`. -/
abbrev Handled : Type := { n : Nat // n ≠ 401 }

def handle (env : AuthEnv) (status : Handled) : HttpRequest → AuthProg HttpResponse
  | .api authorization => do
    let _ ← requireAuth authorization
    return .status status
  | .refresh frt => do
    let res ← refresh env frt
    match res with
    | .session frt accessToken user => return .session frt ⟨accessToken, user⟩
    | .loggedOut => return .status 200

/-- `limited`: the global limiter, whose bucket all clients of one address share, lets the request
not through. -/
def answer (env : AuthEnv) (request : HttpRequest) (limited : Bool) (status : Handled) :
    AppProg HttpResponse :=
  if limited then pure (.status 429)
  else (handle env status request).inr.tryCatch fun e => .ret (.status (errorMiddleware e).1)

def serve (env : AuthEnv) (k : Nat) (request : HttpRequest) (limited : Bool) (status : Handled) :
    AppProg Nat := do
  let res ← answer env request limited status
  (WebOp.respond k res).call
  return res.code

/-! ## The system -/

inductive AppReq where
  | apiFetch
  | silentRefresh
  | serve (k : Nat) (request : HttpRequest) (limited : Bool) (status : Handled)
  deriving DecidableEq

/-- The answer of a call arrives, or the page renders. -/
inductive AppEnv where
  | arrive (k : Nat)
  | render

def appProg (env : AuthEnv) : AppReq → AppProg Nat
  | .apiFetch => apiFetch
  | .silentRefresh => silentRefresh
  | .serve k request limited status => serve env k request limited status

def accept (i : Nat) : AppReq → Web → Option Web
  | .serve k request _ _, w =>
    match w.calls[k]? with
    | some ⟨request', retried, .sent⟩ =>
      if request' = request then some (w.move k ⟨request', retried, .sent⟩ (.served i)) else none
    | _ => none
  | _, w => some w

def appEnv : AppEnv → Web → Option Web
  | .arrive k, w =>
    match w.calls[k]? with
    | some ⟨request, retried, .answered res⟩ =>
      some { w.move k ⟨request, retried, .answered res⟩ (.arrived res) with
        browser := w.browser.receive res }
    | _ => none
  | .render, w => some { w with browser := w.browser.render }

/-- Every call of the page is made, served and answered once, whenever. The users stay as they
are. -/
def appSystem (env : AuthEnv) (lib : AuthLib) :
    System appSig Err AppReq Nat AppWorld String AppEnv where
  store := webStore.sum (authStore lib)
  prog := appProg env
  accept := fun _ i r w => (accept i r w.1).map fun web => (web, w.2)
  env := fun _ e w => (appEnv e w.1).map fun web => (web, w.2)

abbrev AppConfig : Type := Config appSig Err AppReq Nat AppWorld
abbrev AppThread : Type := Thread appSig Err AppReq Nat
abbrev AppAct : Type := Act Err AppReq String AppEnv

end Flashkart
