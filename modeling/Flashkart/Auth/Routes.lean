import Flashkart.Auth.Store

/-!
# Auth.Routes

`POST /auth/login`, `/auth/refresh` and `/auth/logout`, from the point where the limiter has let
the request through, with the token and refresh-store modules under them.

A refresh token names its family and a JTI. The family's active JTI is under its key in Redis: a
refresh whose token has another one revokes the family, and a successful refresh replaces it.
-/

namespace Flashkart

open Async

structure AuthEnv where
  JWT_ACCESS_TTL : String
  JWT_REFRESH_TTL : String

/-! ## Tokens -/

def unitSeconds : Char → Option Nat
  | 's' => some 1
  | 'm' => some 60
  | 'h' => some 3600
  | 'd' => some 86400
  | _ => none

/-- The number whose decimal digits are `ds`, last digit first. -/
def ofDigits (ds : List Char) : Nat := ds.foldr (fun c n => c.toNat - '0'.toNat + 10 * n) 0

/-- `/^(\d+)([smhd])$/`, read from the end. -/
def ttlToSeconds (ttl : String) : Except Err Nat :=
  match ttl.toList.reverse with
  | unit :: d :: ds =>
    match unitSeconds unit with
    | some mult =>
      if (d :: ds).all Char.isDigit then .ok (ofDigits (d :: ds) * mult)
      else .error (.error ("bad ttl: " ++ ttl))
    | none => .error (.error ("bad ttl: " ++ ttl))
  | _ => .error (.error ("bad ttl: " ++ ttl))

example : (ttlToSeconds "7d").toOption = some 604800 := by decide

example : (ttlToSeconds "7w").toOption = none := by decide

def signAccess (env : AuthEnv) (userId : String) (role : Role) : AuthProg String :=
  (AuthOp.jwtSign (.access userId role) .JWT_ACCESS_SECRET env.JWT_ACCESS_TTL).call

structure RefreshToken where
  token : String
  jti : String

def signRefresh (env : AuthEnv) (userId familyId : String) : AuthProg RefreshToken := do
  let jti ← AuthOp.randomUUID.call
  let token ← (AuthOp.jwtSign (.refresh ⟨userId, familyId, jti⟩) .JWT_REFRESH_SECRET
    env.JWT_REFRESH_TTL).call
  return ⟨token, jti⟩

def verifyRefresh (token : String) : AuthProg RefreshPayload := do
  let decoded ← (AuthOp.jwtVerify token .JWT_REFRESH_SECRET).call
  match decoded with
  | none => .throw (.error "invalid token")
  | some (.access ..) => .throw (.error "wrong token type")
  | some (.refresh p) => return p

/-! ## The refresh store -/

def familyKey (userId familyId : String) : String := "refresh:" ++ userId ++ ":" ++ familyId

/-- The key of a family of a user in the database. -/
theorem familyKey_inj {u v : ObjectId} {f g : String} :
    familyKey u.toString f = familyKey v.toString g ↔ u = v ∧ f = g := by
  constructor
  · intro h
    have hlist := congrArg String.toList h
    simp only [familyKey, String.toList_append, List.append_assoc, List.append_cancel_left_eq] at hlist
    obtain ⟨huv, hfg⟩ := List.append_inj hlist (u.wf.1.trans v.wf.1.symm)
    simp only [List.append_cancel_left_eq, String.toList_inj] at hfg
    exact ⟨ObjectId.toString_injective (String.toList_inj.mp huv), hfg⟩
  · rintro ⟨rfl, rfl⟩
    rfl

def saveActiveJti (userId familyId jti : String) (ttlSeconds : Nat) : AuthProg Unit :=
  (KvOp.set (familyKey userId familyId) jti ttlSeconds).call.inl

def getActiveJti (userId familyId : String) : AuthProg (Option String) :=
  (KvOp.get (familyKey userId familyId)).call.inl

def revokeFamily (userId familyId : String) : AuthProg Unit :=
  (KvOp.del (familyKey userId familyId)).call.inl

/-! ## The routes -/

/-- A string that is there, and not empty. -/
def truthy (s : Option String) : Option String := s.filter (· ≠ "")

structure Credentials where
  email : String
  password : String
  deriving DecidableEq

/-- `body` is what `loginSchema` makes of the body, `frt` the refresh cookie. -/
inductive AuthReq where
  | login (body : Option Credentials)
  | refresh (frt : Option String)
  | logout (frt : Option String)
  deriving DecidableEq

structure UserView where
  id : String
  email : String
  name : String
  role : Role
  deriving DecidableEq

/-- The `frt` cookie of an answer. -/
structure RefreshCookie where
  value : String
  maxAge : Nat
  deriving DecidableEq

/-- The answers, all of status 200: a session with its new cookie, or the cookie cleared. -/
inductive AuthRes where
  | session (frt : RefreshCookie) (accessToken : String) (user : UserView)
  | loggedOut
  deriving DecidableEq

def refreshCookieMaxAge (env : AuthEnv) : AuthProg Nat := do
  let ttl ← .ofExcept (ttlToSeconds env.JWT_REFRESH_TTL)
  return ttl * 1000

def login (env : AuthEnv) : Option Credentials → AuthProg AuthRes
  | none => .throw (.app (badRequest "invalid input"))
  | some ⟨email, password⟩ => do
    let user ← (AuthOp.userFindOne email).call
    match user.filter (·.active) with
    | none => .throw (.app (unauthenticated "invalid credentials"))
    | some user =>
      let ok ← (AuthOp.bcryptCompare password user.passwordHash).call
      if ok then
        let userId := user.id.toString
        let familyId ← AuthOp.randomUUID.call
        let accessToken ← signAccess env userId user.role
        let refreshToken ← signRefresh env userId familyId
        let ttl ← .ofExcept (ttlToSeconds env.JWT_REFRESH_TTL)
        saveActiveJti userId familyId refreshToken.jti ttl
        let maxAge ← refreshCookieMaxAge env
        return .session ⟨refreshToken.token, maxAge⟩ accessToken
          ⟨userId, user.email, user.name, user.role⟩
      else .throw (.app (unauthenticated "invalid credentials"))

/-- `POST /auth/refresh`, from the verified token on. -/
def rotate (env : AuthEnv) (payload : RefreshPayload) : AuthProg AuthRes := do
  let active ← getActiveJti payload.sub payload.fam
  match truthy active with
  | none => .throw (.app (unauthenticated "session revoked"))
  | some active =>
    if active ≠ payload.jti then
      -- stale, already rotated
      revokeFamily payload.sub payload.fam
      .throw (.app (unauthenticated "refresh token reuse detected — session revoked"))
    else
      let user ← (AuthOp.userFindById payload.sub).call
      match user.filter (·.active) with
      | none =>
        revokeFamily payload.sub payload.fam
        .throw (.app (unauthenticated "user inactive"))
      | some user =>
        let newAccess ← signAccess env payload.sub user.role
        let newRefresh ← signRefresh env payload.sub payload.fam
        let ttl ← .ofExcept (ttlToSeconds env.JWT_REFRESH_TTL)
        saveActiveJti payload.sub payload.fam newRefresh.jti ttl
        let maxAge ← refreshCookieMaxAge env
        return .session ⟨newRefresh.token, maxAge⟩ newAccess
          ⟨payload.sub, user.email, user.name, user.role⟩

def refresh (env : AuthEnv) (frt : Option String) : AuthProg AuthRes :=
  match truthy frt with
  | none => .throw (.app (unauthenticated "no refresh token"))
  | some token => do
    let payload ← (verifyRefresh token).tryCatch fun _ =>
      .throw (.app (unauthenticated "invalid refresh token"))
    rotate env payload

def logout (env : AuthEnv) (frt : Option String) : AuthProg AuthRes := do
  match truthy frt with
  | none => pure ()
  | some token =>
    -- even a bad token results in a clean logout
    Prog.tryCatch
      (do
        let payload ← verifyRefresh token
        revokeFamily payload.sub payload.fam)
      fun _ => .ret ()
  let _ ← refreshCookieMaxAge env
  return .loggedOut

def authProg (env : AuthEnv) : AuthReq → AuthProg AuthRes
  | .login body => login env body
  | .refresh frt => refresh env frt
  | .logout frt => logout env frt

/-- Users come and go, and are activated and deactivated, in any way. -/
def authSystem (env : AuthEnv) (lib : AuthLib) :
    System authSig Err AuthReq AuthRes AuthWorld String (List User) where
  store := authStore lib
  prog := authProg env
  accept := fun _ _ _ w => some w
  env := fun _ users w => some (w.1, { w.2 with users := users })

abbrev AuthConfig : Type := Config authSig Err AuthReq AuthRes AuthWorld
abbrev AuthThread : Type := Thread authSig Err AuthReq AuthRes
abbrev AuthAct : Type := Act Err AuthReq String (List User)

/-- Some users, and no session yet. -/
def freshAuth (now : Nat) (users : List User) : AuthConfig :=
  .init now (fun _ => none, ⟨users, [], []⟩)

def authStatus : Except Err AuthRes → Nat
  | .ok _ => 200
  | .error e => (errorMiddleware e).1

/-! One user, and runs with them. -/

def envVars : AuthEnv := ⟨"15m", "7d"⟩

def userA : User where
  id := .ofHex "0123456789abcdef01234567" (by decide)
  email := "a@test.local"
  name := "A"
  passwordHash := "$2b$12$hash"
  role := .buyer
  active := true

def authLib : AuthLib where
  compare := fun plain hash => plain == "password1" && hash == "$2b$12$hash"
  expires := fun now ttl => now + (ttlToSeconds ttl).toOption.getD 0 * 1000

/-- Thread `i` makes one call for each choice, and each is answered. -/
def authCalls (i : Nat) (choices : List String) : List AuthAct :=
  choices.map fun s => .call i (.answered s)

/-- The first request logs in: it opens the family `fam` and gets the token `rt0`. -/
def loggedIn : List AuthAct :=
  .arrive (.login (some ⟨"a@test.local", "password1"⟩)) ::
    authCalls 0 ["", "", "fam", "at", "jti0", "rt0", ""]

end Flashkart
