import Flashkart.Async.Kv
import Flashkart.Basic

/-!
# Auth.Store

What the auth routes call: the users' collection, bcrypt, random UUIDs and JSON web tokens. The
active JTI of each token family is in Redis, the other half of the state (`authStore`).

A UUID is one that was never drawn before. A token is a text that stands for the payload it was
signed with: verification finds the payload of every text that was signed with the secret and has
not expired, and of no other text.
-/

namespace Flashkart

open Async

inductive Role where
  | buyer
  | seller
  | admin
  deriving DecidableEq

structure User where
  id : ObjectId
  email : String
  name : String
  passwordHash : String
  role : Role
  active : Bool
  deriving DecidableEq

structure RefreshPayload where
  sub : String
  fam : String
  jti : String
  deriving DecidableEq

/-- A payload by its `typ`. -/
inductive JwtPayload where
  | access (sub : String) (role : Role)
  | refresh (p : RefreshPayload)
  deriving DecidableEq

inductive JwtSecret where
  | JWT_ACCESS_SECRET
  | JWT_REFRESH_SECRET
  deriving DecidableEq

structure SignedToken where
  secret : JwtSecret
  token : String
  payload : JwtPayload
  expiry : Nat
  deriving DecidableEq

/-- The users, the UUIDs drawn so far, and the tokens signed so far. -/
structure AuthDb where
  users : List User
  drawn : List String
  signed : List SignedToken

inductive AuthOp where
  | userFindOne (email : String)
  | userFindById (id : String)
  | bcryptCompare (plain hash : String)
  | randomUUID
  | jwtSign (payload : JwtPayload) (secret : JwtSecret) (expiresIn : String)
  | jwtVerify (token : String) (secret : JwtSecret)
  deriving DecidableEq

abbrev AuthOp.Ret : AuthOp → Type
  | .userFindOne _ => Option User
  | .userFindById _ => Option User
  | .bcryptCompare .. => Bool
  | .randomUUID => String
  | .jwtSign .. => String
  | .jwtVerify .. => Option JwtPayload

/-- The packages: whether a password is the one of a hash, and when a token expires that is signed
at a given time with a given `expiresIn`. -/
structure AuthLib where
  compare : String → String → Bool
  expires : Nat → String → Nat

/-- The choice is the new UUID, or the text of the new token. An id that is not an `ObjectId` makes
`findById` throw, and `jwtVerify` answers `none` where the library throws. -/
def authDbStore (lib : AuthLib) : Store ⟨AuthOp, AuthOp.Ret⟩ AuthDb String
  | _, _, .userFindOne email, _, w => some (w.users.find? fun u => u.email = lower email, w)
  | _, _, .userFindById id, _, w =>
    (castObjectId id).map fun o => (w.users.find? fun u => u.id = o, w)
  | _, _, .bcryptCompare plain hash, _, w => some (lib.compare plain hash, w)
  | _, _, .randomUUID, s, w =>
    if s = "" ∨ s ∈ w.drawn then none else some (s, { w with drawn := s :: w.drawn })
  | now, _, .jwtSign payload secret expiresIn, s, w =>
    if s = "" ∨ ∃ d ∈ w.signed, d.secret = secret ∧ d.token = s ∧ d.payload ≠ payload then none
    else some (s, { w with signed := ⟨secret, s, payload, lib.expires now expiresIn⟩ :: w.signed })
  | now, _, .jwtVerify token secret, _, w =>
    some ((w.signed.find? fun d =>
      d.secret = secret ∧ d.token = token ∧ now < d.expiry).map (·.payload), w)

/-- The database after a draw. -/
def AuthDb.draw (db : AuthDb) (s : String) : AuthDb := { db with drawn := s :: db.drawn }

section Db

variable {lib : AuthLib} {now i : Nat} {p : String} {db db' : AuthDb}

theorem randomUUID_new {s : String}
    (h : authDbStore lib now i .randomUUID p db = some (s, db')) : s ∉ db.drawn ∧ db' = db.draw s := by
  simp only [authDbStore] at h
  split at h
  · cases h
  · rename_i hnew
    cases h
    exact ⟨(not_or.mp hnew).2, rfl⟩

theorem drawn_eq {o : AuthOp} {a : o.Ret} (ho : o ≠ .randomUUID)
    (h : authDbStore lib now i o p db = some (a, db')) : db'.drawn = db.drawn := by
  cases o with
  | randomUUID => exact absurd rfl ho
  | userFindById id =>
    obtain ⟨u, -, heq⟩ := Option.map_eq_some_iff.mp h
    cases heq
    rfl
  | jwtSign payload secret expiresIn =>
    simp only [authDbStore] at h
    split at h
    · cases h
    · cases h
      rfl
  | _ => cases h; rfl

end Db

abbrev authSig : Sig := (kvSig String).sum ⟨AuthOp, AuthOp.Ret⟩

abbrev AuthProg (α : Type) : Type := Prog authSig Err α

abbrev AuthWorld : Type := Kv String × AuthDb

def authStore (lib : AuthLib) : Store authSig AuthWorld String := kvStore.sum (authDbStore lib)

def AuthOp.call (o : AuthOp) : AuthProg o.Ret := Prog.inr (@Prog.op ⟨AuthOp, AuthOp.Ret⟩ Err o)

end Flashkart
