import Flashkart.Async.Typestate
import Flashkart.Auth.Routes

/-!
# Auth.Phase

How far a request has come, as an automaton over its calls. A login founds a family, draws its
first JTI and saves it. A refresh presents a token, finds its JTI active, draws the next one and
saves it: between the check and the save it `holds` the family. A call that throws ends the
automaton, as it does the request.

`follows_authProg`: the three routes keep to it, and a refresh that answers has rotated.
-/

namespace Flashkart

open Async

/-- A verified refresh token. -/
structure Presented where
  token : String
  payload : RefreshPayload
  deriving DecidableEq

def Presented.key (p : Presented) : String := familyKey p.payload.sub p.payload.fam

inductive Phase where
  | start
  | found (user : ObjectId)
  | founding (user : ObjectId) (fam : String)
  | opening (user : ObjectId) (fam next : String)
  | presented (p : Presented)
  | checked (p : Presented)
  | rotating (p : Presented) (next : String)
  | rotated (p : Presented)
  | over
  deriving DecidableEq

namespace Phase

/-- The token a refresh or logout has presented. -/
def shown : Phase → Option Presented
  | .presented p | .checked p | .rotating p _ | .rotated p => some p
  | _ => none

/-- The token whose JTI was found active. -/
def passed : Phase → Option Presented
  | .checked p | .rotating p _ | .rotated p => some p
  | _ => none

/-- The key of the family between the check and the save. -/
def holds : Phase → Option String
  | .checked p | .rotating p _ => some p.key
  | _ => none

/-- The key of the family a login is about to open. -/
def opens : Phase → Option String
  | .founding u f | .opening u f _ => some (familyKey u.toString f)
  | _ => none

/-- The JTI that is drawn and not saved. -/
def next : Phase → Option String
  | .opening _ _ n | .rotating _ n => some n
  | _ => none

theorem holds_eq_some {x : Phase} {k : String} (h : x.holds = some k) :
    ∃ p, x.passed = some p ∧ p.key = k := by
  cases x with
  | checked p => exact ⟨p, rfl, Option.some.inj h⟩
  | rotating p n => exact ⟨p, rfl, Option.some.inj h⟩
  | _ => cases h

theorem passed_shown {x : Phase} {p : Presented} (h : x.passed = some p) : x.shown = some p := by
  cases x <;> first | exact h | cases h

/-- One that passed the check holds its family or has rotated. -/
theorem passed_cases {x : Phase} {p : Presented} (h : x.passed = some p) :
    x.holds = some p.key ∨ x = .rotated p := by
  cases x with
  | checked q => cases h; exact .inl rfl
  | rotating q n => cases h; exact .inl rfl
  | rotated q => cases h; exact .inr rfl
  | _ => cases h

/-! ## Steps -/

def afterKv : (o : KvOp String) → o.Ret → Phase → Phase
  | .get _, jti, .presented p => if jti = some p.payload.jti then .checked p else .over
  | .set .., _, .rotating p _ => .rotated p
  | .set .., _, _ => .over
  | .del _, _, _ => .over
  | _, _, x => x

def afterDb : (o : AuthOp) → o.Ret → Phase → Phase
  | .userFindOne _, some u, .start => .found u.id
  | .userFindById _, u, .checked p => if u.any (·.active) then .checked p else .over
  | .randomUUID, s, .found u => .founding u s
  | .randomUUID, s, .founding u f => .opening u f s
  | .randomUUID, s, .checked p => .rotating p s
  | .jwtVerify t _, some (.refresh p), .start => .presented ⟨t, p⟩
  | _, _, x => x

def after : (o : authSig.Op) → Except Err (authSig.Ret o) → Phase → Phase
  | .inl o, .ok a, x => afterKv o a x
  | .inr o, .ok a, x => afterDb o a x
  | _, .error _, _ => .over

theorem after_error (o : authSig.Op) (e : Err) (x : Phase) : after o (.error e) x = .over := by
  cases o <;> rfl

def post (e : Event authSig Err) (x : Phase) : Phase := after e.op e.out x

@[simp] theorem afterDb_jwtSign (payload : JwtPayload) (secret : JwtSecret) (ttl token : String)
    (x : Phase) : x.afterDb (.jwtSign payload secret ttl) token = x := by
  cases x <;> rfl

@[simp] theorem afterDb_bcryptCompare (plain hash : String) (ok : Bool) (x : Phase) :
    x.afterDb (.bcryptCompare plain hash) ok = x := by
  cases x <;> rfl

/-- No call on the database finds a JTI active or saves one. -/
theorem afterDb_passed {o : AuthOp} {a : o.Ret} {x : Phase} :
    (∀ p, (x.afterDb o a).passed = some p → x.passed = some p) ∧
      (∀ k, (x.afterDb o a).holds = some k → x.holds = some k) ∧
      ∀ p, x.afterDb o a = .rotated p → x = .rotated p := by
  unfold afterDb
  split
  · exact ⟨fun _ h => h, fun _ h => h, fun _ h => by cases h⟩
  · split
    · exact ⟨fun _ h => h, fun _ h => h, fun _ h => by cases h⟩
    · exact ⟨fun _ h => (by cases h), fun _ h => (by cases h), fun _ h => by cases h⟩
  · exact ⟨fun _ h => h, fun _ h => h, fun _ h => by cases h⟩
  · exact ⟨fun _ h => h, fun _ h => h, fun _ h => by cases h⟩
  · exact ⟨fun _ h => h, fun _ h => h, fun _ h => by cases h⟩
  · exact ⟨fun _ h => (by cases h), fun _ h => (by cases h), fun _ h => by cases h⟩
  · exact ⟨fun _ h => h, fun _ h => h, fun _ h => h⟩

/-- Only a draw opens a family. -/
theorem afterDb_opens {o : AuthOp} {a : o.Ret} {x : Phase} {k : String}
    (h : (x.afterDb o a).opens = some k) : x.opens = some k ∨ o = .randomUUID := by
  unfold afterDb at h
  split at h
  · cases h
  · split at h
    · cases h
    · cases h
  · exact .inr rfl
  · exact .inr rfl
  · exact .inr rfl
  · cases h
  · exact .inl h

/-- The calls a phase is ready for: a save is of the JTI that was drawn, for the family it was
drawn for, and so is the token that is signed. -/
def ready (x : Phase) : authSig.Op → Prop
  | .inl (.get k) => ∃ p, x = .presented p ∧ k = p.key
  | .inl (.set k v _) => x.next = some v ∧ (x.holds = some k ∨ x.opens = some k)
  | .inl (.del _) => True
  | .inl _ => False
  | .inr (.jwtSign (.refresh p) _ _) => x.holds = some (familyKey p.sub p.fam) ∨
      x.opens = some (familyKey p.sub p.fam)
  | .inr (.jwtVerify _ secret) => secret = .JWT_REFRESH_SECRET
  | .inr _ => True

end Phase

/-- A refresh that answers has rotated the family of its token. -/
def Rotates (r : AuthReq) (out : Except Err AuthRes) (x : Phase) : Prop :=
  ∀ frt res, r = .refresh frt → out = .ok res → ∃ p, x = .rotated p ∧ frt = some p.token

variable {α : Type} {x : Phase} {Q : Except Err α → Phase → Prop}

abbrev Keeps (p : AuthProg α) (x : Phase) (Q : Except Err α → Phase → Prop) : Prop :=
  Follows Phase.ready Phase.post p x Q

theorem keeps_db {o : AuthOp} {f : o.Ret → AuthProg α} (hready : x.ready (.inr o))
    (hok : ∀ a, Keeps (f a) (x.afterDb o a) Q) (herr : ∀ e, Q (.error e) .over) :
    Keeps (o.call.bind f) x Q := by
  refine follows_bind.mpr (follows_inr_op.mpr ⟨hready, fun _ out => ?_⟩)
  cases out with
  | ok a => exact hok a
  | error e => exact herr e

theorem keeps_kv {o : KvOp String} {f : o.Ret → AuthProg α} (hready : x.ready (.inl o))
    (hok : ∀ a, Keeps (f a) (x.afterKv o a) Q) (herr : ∀ e, Q (.error e) .over) :
    Keeps ((o.call.inl : AuthProg o.Ret).bind f) x Q := by
  refine follows_bind.mpr (follows_inl_op.mpr ⟨hready, fun _ out => ?_⟩)
  cases out with
  | ok a => exact hok a
  | error e => exact herr e

theorem keeps_ofExcept {r : Except Err β} {f : β → AuthProg α}
    (hok : ∀ b, Keeps (f b) x Q) (herr : ∀ e, Q (.error e) x) :
    Keeps ((Prog.ofExcept r).bind f) x Q := by
  refine follows_bind.mpr (follows_ofExcept.mpr ?_)
  cases r with
  | ok b => exact hok b
  | error e => exact herr e

theorem keeps_sign {payload : JwtPayload} {secret : JwtSecret} {ttl : String}
    {f : String → AuthProg α} (hready : x.ready (.inr (.jwtSign payload secret ttl)))
    (hok : ∀ token, Keeps (f token) x Q) (herr : ∀ e, Q (.error e) .over) :
    Keeps ((AuthOp.jwtSign payload secret ttl).call.bind f) x Q :=
  keeps_db hready (fun token => by rw [Phase.afterDb_jwtSign]; exact hok token) herr

/-- A token is signed for the JTI that was just drawn. -/
theorem keeps_signRefresh {env : AuthEnv} {sub fam : String} {f : RefreshToken → AuthProg α}
    {y : String → Phase} (hdraw : ∀ n, x.afterDb .randomUUID n = y n)
    (hready : ∀ n, (y n).holds = some (familyKey sub fam) ∨ (y n).opens = some (familyKey sub fam))
    (hok : ∀ t : RefreshToken, Keeps (f t) (y t.jti) Q) (herr : ∀ e, Q (.error e) .over) :
    Keeps ((signRefresh env sub fam).bind f) x Q := by
  refine follows_bind.mpr (keeps_db trivial (fun n => ?_) herr)
  rw [hdraw]
  exact keeps_sign (hready n) (fun token => hok ⟨token, n⟩) herr

/-- The new JTI is saved, and the request answers. -/
theorem keeps_save {env : AuthEnv} {sub fam n : String} {res : Nat → AuthRes} {y : Phase}
    {Q : Except Err AuthRes → Phase → Prop} (hnext : x.next = some n)
    (hfam : x.holds = some (familyKey sub fam) ∨ x.opens = some (familyKey sub fam))
    (hset : ∀ ttl, x.afterKv (.set (familyKey sub fam) n ttl) () = y)
    (hok : ∀ maxAge, Q (.ok (res maxAge)) y) (herr : ∀ e x, Q (.error e) x) :
    Keeps ((Prog.ofExcept (ttlToSeconds env.JWT_REFRESH_TTL)).bind fun ttl =>
      (saveActiveJti sub fam n ttl).bind fun _ =>
        (refreshCookieMaxAge env).bind fun maxAge => .ret (res maxAge)) x Q := by
  refine keeps_ofExcept (fun ttl => ?_) fun e => herr e x
  refine keeps_kv ⟨hnext, hfam⟩ (fun _ => ?_) fun e => herr e .over
  rw [hset]
  refine follows_bind.mpr (keeps_ofExcept (fun ttl => ?_) fun e => herr e y)
  exact hok (ttl * 1000)

theorem follows_login (env : AuthEnv) (body : Option Credentials) :
    Keeps (login env body) .start fun _ _ => True := by
  cases body with
  | none => trivial
  | some body =>
    refine keeps_db trivial (fun user => ?_) fun _ => trivial
    cases hu : user.filter (·.active) with
    | none => trivial
    | some u =>
      have huser : user = some u := (Option.filter_eq_some_iff.mp hu).1
      subst huser
      refine keeps_db trivial (fun ok => ?_) fun _ => trivial
      cases ok with
      | false => trivial
      | true =>
        refine keeps_db trivial (fun fam => ?_) fun _ => trivial
        refine keeps_sign trivial (fun access => ?_) fun _ => trivial
        refine keeps_signRefresh (y := .opening u.id fam) (fun _ => rfl) (fun _ => .inr rfl)
          (fun t => ?_) fun _ => trivial
        exact keeps_save rfl (.inr rfl) (fun _ => rfl) (fun _ => trivial) fun _ _ => trivial

/-- Verification: a valid token is presented, whatever comes of it. -/
theorem keeps_verifyRefresh {token : String} {Q : Except Err RefreshPayload → Phase → Prop}
    (hok : ∀ p, Q (.ok p) (.presented ⟨token, p⟩)) (herr : ∀ e x, Q (.error e) x) :
    Keeps (verifyRefresh token) .start Q := by
  refine keeps_db rfl (fun decoded => ?_) fun e => herr e .over
  rcases decoded with _ | (_ | p)
  · exact herr _ _
  · exact herr _ _
  · exact hok p

theorem follows_rotate (env : AuthEnv) (p : Presented) :
    Keeps (rotate env p.payload) (.presented p) fun out x => ∀ res, out = .ok res → x = .rotated p := by
  have herr : ∀ (e : Err) (x : Phase) (res : AuthRes), Except.error e = .ok res → x = .rotated p :=
    fun _ _ _ h => by cases h
  refine keeps_kv ⟨p, rfl, rfl⟩ (fun active => ?_) fun e => herr e .over
  cases ha : truthy active with
  | none => exact herr _ _
  | some jti =>
    have hactive : active = some jti := (Option.filter_eq_some_iff.mp ha).1
    subst hactive
    dsimp only
    split
    · exact keeps_kv trivial (fun _ => herr _ _) fun e => herr e .over
    · rename_i heq
      have hjti : jti = p.payload.jti := not_not.mp heq
      have hchecked : Phase.afterKv (.get p.key) (some jti) (.presented p) = .checked p := by
        rw [hjti]
        exact if_pos rfl
      rw [show familyKey p.payload.sub p.payload.fam = p.key from rfl, hchecked]
      refine keeps_db trivial (fun user => ?_) fun e => herr e .over
      cases hu : user.filter (·.active) with
      | none => exact keeps_kv trivial (fun _ => herr _ _) fun e => herr e .over
      | some u =>
        obtain ⟨huser, hon⟩ := Option.filter_eq_some_iff.mp hu
        have hstill : Phase.afterDb (.userFindById p.payload.sub) user (.checked p) = .checked p := by
          rw [huser]
          exact if_pos hon
        rw [hstill]
        refine keeps_sign trivial (fun access => ?_) fun e => herr e .over
        refine keeps_signRefresh (y := .rotating p) (fun _ => rfl) (fun _ => .inl rfl)
          (fun t => ?_) fun e => herr e .over
        exact keeps_save (y := .rotated p) rfl (.inl rfl) (fun _ => rfl) (fun _ _ _ => rfl) herr

theorem follows_authProg (env : AuthEnv) (r : AuthReq) :
    Keeps (authProg env r) .start (Rotates r) := by
  cases r with
  | login body => exact (follows_login env body).mono fun _ _ _ _ _ h => by cases h
  | refresh frt =>
    show Keeps (refresh env frt) _ _
    unfold refresh
    cases hf : truthy frt with
    | none => exact fun _ _ _ h => by cases h
    | some token =>
      have hfrt : frt = some token := (Option.filter_eq_some_iff.mp hf).1
      refine follows_bind.mpr (follows_tryCatch.mpr (keeps_verifyRefresh (fun p => ?_) ?_))
      · refine (follows_rotate env ⟨token, p⟩).mono fun out x h frt' res hr hout => ?_
        cases hr
        exact ⟨⟨token, p⟩, h res hout, hfrt⟩
      · exact fun _ _ _ _ _ h => by cases h
  | logout frt =>
    show Keeps (logout env frt) _ _
    have hrest : ∀ x, Keeps ((refreshCookieMaxAge env).bind fun _ => .ret .loggedOut) x
        (Rotates (.logout frt)) := by
      intro x
      refine follows_bind.mpr (keeps_ofExcept (fun ttl => ?_) ?_)
      · exact fun _ _ h => by cases h
      · exact fun _ _ _ h => by cases h
    unfold logout
    cases truthy frt with
    | none => exact hrest .start
    | some token =>
      refine follows_bind.mpr (follows_tryCatch.mpr (follows_bind.mpr
        (keeps_verifyRefresh (fun p => ?_) fun _ x => hrest x)))
      refine follows_inl_op.mpr ⟨trivial, fun _ out => ?_⟩
      cases out with
      | ok _ => exact hrest .over
      | error _ => exact hrest .over

/-- How far a request has come. -/
def phase (t : AuthThread) : Phase := t.account Phase.post fun _ _ => .start

end Flashkart
