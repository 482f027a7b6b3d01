import Flashkart.Async.Serial
import Flashkart.Auth.Routes

/-!
# Auth.Effects

What each route does to the stores when no other request is being served and every call is answered.

* `valid`       — the payload of a refresh token that passes verification.
* `Mints`       — a new refresh token with a new JTI has been signed.
* `Issues`      — and it is the family's active one, and in the answer.
* `exec_login`, `exec_refresh`, `exec_logout` — the cases of each route.
-/

namespace Flashkart

open Async

/-- What `verifyRefresh` makes of a token. -/
def AuthDb.valid (db : AuthDb) (now : Nat) (token : String) : Option RefreshPayload :=
  match db.signed.find? fun d =>
      d.secret = .JWT_REFRESH_SECRET ∧ d.token = token ∧ now < d.expiry with
  | some ⟨_, _, .refresh p, _⟩ => some p
  | _ => none

/-- There is a user with this id, and it is active. -/
def AuthDb.active (db : AuthDb) (id : String) : Bool :=
  ((castObjectId id).bind fun o => db.users.find? fun u => u.id = o).any (·.active)

/-- Between `db` and `db'` no refresh token was signed and no UUID drawn. -/
structure Calm (db db' : AuthDb) : Prop where
  users : db'.users = db.users
  drawn : db'.drawn = db.drawn
  signed : ∀ d, d.secret = .JWT_REFRESH_SECRET → (d ∈ db'.signed ↔ d ∈ db.signed)

structure Mints (env : AuthEnv) (lib : AuthLib) (now : Nat) (db db' : AuthDb) (token : String)
    (p : RefreshPayload) : Prop where
  users : db'.users = db.users
  drawn : db'.drawn = p.jti :: db.drawn
  fresh : p.jti ∉ db.drawn
  named : p.jti ≠ ""
  text : token ≠ ""
  texts : ∀ d ∈ db.signed, d.secret = .JWT_REFRESH_SECRET → d.token = token → d.payload = .refresh p
  signed : ∀ d, d.secret = .JWT_REFRESH_SECRET → (d ∈ db'.signed ↔
    d = ⟨.JWT_REFRESH_SECRET, token, .refresh p, lib.expires now env.JWT_REFRESH_TTL⟩ ∨
      d ∈ db.signed)

/-- A token for `p` is signed. If the lifetime is well formed, it becomes the active one and is
answered, otherwise the request ends with an error. -/
def Issues (env : AuthEnv) (lib : AuthLib) (now i : Nat) (w : AuthWorld) (token : String)
    (p : RefreshPayload) (r : Except Err AuthRes) (w' : AuthWorld) : Prop :=
  Mints env lib now w.2 w'.2 token p ∧
    match ttlToSeconds env.JWT_REFRESH_TTL with
    | .ok ttl => w'.1 = w.1.put (familyKey p.sub p.fam) ⟨p.jti, now + ttl * 1000, i⟩ ∧
      ∃ maxAge access user, r = .ok (.session ⟨token, maxAge⟩ access user)
    | .error e => w'.1 = w.1 ∧ r = .error e

variable {env : AuthEnv} {lib : AuthLib} {now i : Nat} {w w' : AuthWorld} {db db' : AuthDb}
  {token : String} {r : Except Err AuthRes}

theorem calm_signAccess {userId : String} {role : Role} {p : String} {a : String}
    (h : authDbStore lib now i (.jwtSign (.access userId role) .JWT_ACCESS_SECRET env.JWT_ACCESS_TTL)
      p db = some (a, db')) : Calm db db' := by
  simp only [authDbStore] at h
  split at h
  · cases h
  · cases h
    refine ⟨rfl, rfl, fun d hd => List.mem_cons.trans (or_iff_right ?_)⟩
    rintro rfl
    cases hd

theorem mints_signRefresh {p : RefreshPayload} {s s' a : String} {db₁ : AuthDb}
    (hdraw : authDbStore lib now i .randomUUID s db = some (p.jti, db₁))
    (hsign : authDbStore lib now i (.jwtSign (.refresh p) .JWT_REFRESH_SECRET env.JWT_REFRESH_TTL)
      s' db₁ = some (a, db')) : Mints env lib now db db' a p := by
  simp only [authDbStore] at hdraw hsign
  split at hdraw
  · cases hdraw
  · rename_i hnew
    obtain ⟨hne, hnew⟩ := not_or.mp hnew
    obtain ⟨rfl, rfl⟩ := Prod.mk.inj (Option.some.inj hdraw)
    split at hsign
    · cases hsign
    · rename_i hok
      obtain ⟨hs', hok⟩ := not_or.mp hok
      obtain ⟨rfl, rfl⟩ := Prod.mk.inj (Option.some.inj hsign)
      refine ⟨rfl, rfl, hnew, hne, hs', fun d hd hsec htok => ?_, fun d _ => List.mem_cons⟩
      by_contra hpay
      exact hok ⟨d, hd, hsec, htok, hpay⟩

theorem Calm.mints {db₁ : AuthDb} {p : RefreshPayload} (h : Calm db db₁)
    (hm : Mints env lib now db₁ db' token p) : Mints env lib now db db' token p where
  users := hm.users.trans h.users
  drawn := by rw [hm.drawn, h.drawn]
  fresh := h.drawn ▸ hm.fresh
  named := hm.named
  text := hm.text
  texts := fun d hd hsec => hm.texts d ((h.signed d hsec).mpr hd) hsec
  signed := fun d hsec => by rw [hm.signed d hsec, h.signed d hsec]

/-! ## The routes -/

/-- The end of login and refresh. -/
theorem exec_issue {sub fam : String} {role : Role} {user : UserView}
    (h : Exec (authStore lib) now i (do
      let access ← signAccess env sub role
      let refreshToken ← signRefresh env sub fam
      let ttl ← .ofExcept (ttlToSeconds env.JWT_REFRESH_TTL)
      saveActiveJti sub fam refreshToken.jti ttl
      let maxAge ← refreshCookieMaxAge env
      return .session ⟨refreshToken.token, maxAge⟩ access user) w r w') :
    ∃ token jti, Issues env lib now i w token ⟨sub, fam, jti⟩ r w' := by
  obtain ⟨_, access, db₁, hx, h⟩ := Exec.inr_op_iff.mp h
  have hcalm := calm_signAccess hx
  rcases Exec.bind_iff.mp h with ⟨rt, w₁, hrt, h⟩ | ⟨e, hrt, rfl⟩
  · obtain ⟨_, jti, db₂, hdraw, hrt⟩ := Exec.inr_op_iff.mp hrt
    obtain ⟨_, token, db₃, hsign, hrt⟩ := Exec.inr_op_iff.mp hrt
    obtain ⟨hrt, rfl⟩ := Exec.ret_iff.mp hrt
    cases hrt
    refine ⟨token, jti, ?_⟩
    have hm : Mints env lib now w.2 db₃ token ⟨sub, fam, jti⟩ :=
      hcalm.mints (mints_signRefresh (p := ⟨sub, fam, jti⟩) hdraw hsign)
    unfold Issues
    cases httl : ttlToSeconds env.JWT_REFRESH_TTL with
    | error e =>
      simp only [httl] at h
      obtain ⟨rfl, rfl⟩ := Exec.throw_iff.mp h
      exact ⟨hm, rfl, rfl⟩
    | ok ttl =>
      simp only [httl, refreshCookieMaxAge] at h
      obtain ⟨_, u, kv, hset, h⟩ := Exec.inl_op_iff.mp h
      cases hset
      obtain ⟨rfl, rfl⟩ := Exec.ret_iff.mp h
      exact ⟨hm, rfl, _, _, _, rfl⟩
  · obtain ⟨_, jti, db₂, hdraw, hrt⟩ := Exec.inr_op_iff.mp hrt
    obtain ⟨_, token, db₃, hsign, hrt⟩ := Exec.inr_op_iff.mp hrt
    cases hrt

theorem exec_login {body : Option Credentials}
    (h : Exec (authStore lib) now i (login env body) w r w') :
    (w' = w ∧ ∃ e, r = .error e) ∨ ∃ (user : ObjectId) (fam token jti : String),
      fam ∉ w.2.drawn ∧
      Issues env lib now i (w.1, w.2.draw fam) token ⟨user.toString, fam, jti⟩ r w' := by
  rcases body with _ | ⟨email, password⟩
  · obtain ⟨rfl, rfl⟩ := Exec.throw_iff.mp h
    exact .inl ⟨rfl, _, rfl⟩
  obtain ⟨_, user, db₁, hx, h⟩ := Exec.inr_op_iff.mp h
  cases hx
  split at h
  · obtain ⟨rfl, rfl⟩ := Exec.throw_iff.mp h
    exact .inl ⟨rfl, _, rfl⟩
  · rename_i user _
    obtain ⟨_, ok, db₁, hx, h⟩ := Exec.inr_op_iff.mp h
    cases hx
    split at h
    · obtain ⟨_, fam, db₁, hdraw, h⟩ := Exec.inr_op_iff.mp h
      obtain ⟨hnew, rfl⟩ := randomUUID_new hdraw
      obtain ⟨token, jti, hissue⟩ := exec_issue h
      exact .inr ⟨user.id, fam, token, jti, hnew, hissue⟩
    · obtain ⟨rfl, rfl⟩ := Exec.throw_iff.mp h
      exact .inl ⟨rfl, _, rfl⟩

theorem exec_verifyRefresh {r : Except Err RefreshPayload}
    (h : Exec (authStore lib) now i (verifyRefresh token) w r w') : w' = w ∧
      ((∃ p, w.2.valid now token = some p ∧ r = .ok p) ∨
        (w.2.valid now token = none ∧ ∃ e, r = .error e)) := by
  obtain ⟨_, decoded, db₁, hx, h⟩ := Exec.inr_op_iff.mp h
  cases hx
  simp only [AuthDb.valid]
  rcases hfind : w.2.signed.find? _ with _ | ⟨secret, text, payload, expiry⟩
  · rw [hfind] at h
    obtain ⟨rfl, rfl⟩ := Exec.throw_iff.mp h
    exact ⟨rfl, .inr ⟨rfl, _, rfl⟩⟩
  · rw [hfind] at h
    cases payload with
    | access sub role =>
      obtain ⟨rfl, rfl⟩ := Exec.throw_iff.mp h
      exact ⟨rfl, .inr ⟨rfl, _, rfl⟩⟩
    | refresh p =>
      obtain ⟨rfl, rfl⟩ := Exec.ret_iff.mp h
      exact ⟨rfl, .inl ⟨p, rfl, rfl⟩⟩

/-- The request ends with an error, and its status is not 200. -/
def Refused (r : Except Err AuthRes) : Prop := ∃ e, r = .error e ∧ authStatus r ≠ 200

theorem refused_unauthenticated (msg : String) : Refused (.error (.app (unauthenticated msg))) :=
  ⟨_, rfl, by simp [authStatus, errorMiddleware, unauthenticated]⟩

/-- A refresh with a verified token: the family has no key; the token or its user is not good, and
the family is revoked; or it is rotated. -/
theorem exec_rotate {p : RefreshPayload}
    (h : Exec (authStore lib) now i (rotate env p) w r w') :
    (w' = w ∧ Refused r ∧ ∀ e, w.1.live now (familyKey p.sub p.fam) = some e → e.value = "") ∨
    (w' = (w.1.erase (familyKey p.sub p.fam), w.2) ∧ Refused r ∧
      ∃ e, w.1.live now (familyKey p.sub p.fam) = some e ∧
        (e.value ≠ p.jti ∨ w.2.active p.sub = false)) ∨
    (∃ token jti, Issues env lib now i w token ⟨p.sub, p.fam, jti⟩ r w' ∧ w.2.active p.sub = true ∧
      ∃ e, w.1.live now (familyKey p.sub p.fam) = some e ∧ e.value = p.jti) := by
  obtain ⟨_, active, kv, hx, h⟩ := Exec.inl_op_iff.mp h
  cases hx
  cases hlive : w.1.live now (familyKey p.sub p.fam) with
  | none =>
    rw [hlive] at h
    obtain ⟨rfl, rfl⟩ := Exec.throw_iff.mp h
    exact .inl ⟨rfl, refused_unauthenticated _, fun e he => by cases he⟩
  | some e =>
    rw [hlive] at h
    by_cases hempty : e.value = ""
    · have htruthy : truthy (some e.value) = none := by simp [truthy, Option.filter, hempty]
      simp only [Option.map_some, htruthy] at h
      obtain ⟨rfl, rfl⟩ := Exec.throw_iff.mp h
      exact .inl ⟨rfl, refused_unauthenticated _, fun e' he => by cases he; exact hempty⟩
    have htruthy : truthy (some e.value) = some e.value := by simp [truthy, Option.filter, hempty]
    simp only [Option.map_some, htruthy] at h
    by_cases hjti : e.value = p.jti
    · rw [if_neg (not_not.mpr hjti)] at h
      obtain ⟨_, user, db, hx, h⟩ := Exec.inr_op_iff.mp h
      obtain ⟨o, hcast, hx⟩ := Option.map_eq_some_iff.mp hx
      obtain ⟨rfl, rfl⟩ := Prod.mk.inj hx
      have hactive : w.2.active p.sub = (w.2.users.find? fun u => u.id = o).any (·.active) := by
        simp [AuthDb.active, hcast]
      split at h
      · rename_i hnone
        obtain ⟨_, u, kv, hx, h⟩ := Exec.inl_op_iff.mp h
        cases hx
        obtain ⟨rfl, rfl⟩ := Exec.throw_iff.mp h
        refine .inr (.inl ⟨rfl, refused_unauthenticated _, e, rfl, .inr ?_⟩)
        rw [hactive]
        cases hfind : w.2.users.find? fun u => u.id = o with
        | none => rfl
        | some u => simpa [hfind, Option.filter] using hnone
      · rename_i user hsome
        obtain ⟨token, jti, hissue⟩ := exec_issue h
        refine .inr (.inr ⟨token, jti, hissue, ?_, e, rfl, hjti⟩)
        rw [hactive]
        obtain ⟨hfind, hon⟩ := Option.filter_eq_some_iff.mp hsome
        rw [hfind]
        exact hon
    · rw [if_pos hjti] at h
      obtain ⟨_, u, kv, hx, h⟩ := Exec.inl_op_iff.mp h
      cases hx
      obtain ⟨rfl, rfl⟩ := Exec.throw_iff.mp h
      exact .inr (.inl ⟨rfl, refused_unauthenticated _, e, rfl, .inl hjti⟩)

theorem exec_refresh {frt : Option String}
    (h : Exec (authStore lib) now i (refresh env frt) w r w') :
    (w' = w ∧ Refused r ∧ ∀ t, frt = some t → t ≠ "" → w.2.valid now t = none) ∨
      ∃ t p, frt = some t ∧ w.2.valid now t = some p ∧
        Exec (authStore lib) now i (rotate env p) w r w' := by
  cases htruthy : truthy frt with
  | none =>
    simp only [refresh, htruthy] at h
    obtain ⟨rfl, rfl⟩ := Exec.throw_iff.mp h
    refine .inl ⟨rfl, refused_unauthenticated _, ?_⟩
    rintro t rfl hne
    simp [truthy, Option.filter, hne] at htruthy
  | some t =>
    obtain ⟨rfl, -⟩ := Option.filter_eq_some_iff.mp htruthy
    simp only [refresh, htruthy] at h
    rcases Exec.bind_iff.mp h with ⟨p, w₁, hverify, hrotate⟩ | ⟨e, hverify, rfl⟩
    · rcases Exec.tryCatch_iff.mp hverify with ⟨a, hverify, ha⟩ | ⟨e, w₂, -, hthrow⟩
      · cases ha
        obtain ⟨rfl, ⟨p', hvalid, hp⟩ | ⟨-, e, hp⟩⟩ := exec_verifyRefresh hverify
        · cases hp
          exact .inr ⟨t, p, rfl, hvalid, hrotate⟩
        · cases hp
      · cases hthrow
    · rcases Exec.tryCatch_iff.mp hverify with ⟨a, -, ha⟩ | ⟨e', w₂, hverify, hthrow⟩
      · cases ha
      · cases hthrow
        obtain ⟨rfl, ⟨p', -, hp⟩ | ⟨hvalid, e, hp⟩⟩ := exec_verifyRefresh hverify
        · cases hp
        · refine .inl ⟨rfl, refused_unauthenticated _, ?_⟩
          rintro t' heq -
          cases heq
          exact hvalid

/-- A logout with a verified token revokes its family. -/
theorem exec_logout {frt : Option String}
    (h : Exec (authStore lib) now i (logout env frt) w r w') :
    (∀ frt access user, r ≠ .ok (.session frt access user)) ∧
    ((w' = w ∧ ∀ t, frt = some t → t ≠ "" → w.2.valid now t = none) ∨
      ∃ t p, frt = some t ∧ w.2.valid now t = some p ∧
        w' = (w.1.erase (familyKey p.sub p.fam), w.2)) := by
  -- the cookie is cleared in any case
  have hclear : ∀ {w : AuthWorld}, Exec (authStore lib) now i
      ((refreshCookieMaxAge env).bind fun _ => .ret .loggedOut) w r w' →
      (∀ frt access user, r ≠ .ok (.session frt access user)) ∧ w' = w := by
    intro w h
    simp only [refreshCookieMaxAge] at h
    cases httl : ttlToSeconds env.JWT_REFRESH_TTL with
    | error e =>
      simp only [httl] at h
      obtain ⟨rfl, rfl⟩ := Exec.throw_iff.mp h
      exact ⟨(fun _ _ _ he => by cases he), rfl⟩
    | ok ttl =>
      simp only [httl] at h
      obtain ⟨rfl, rfl⟩ := Exec.ret_iff.mp h
      exact ⟨(fun _ _ _ he => by cases he), rfl⟩
  cases htruthy : truthy frt with
  | none =>
    simp only [logout, htruthy] at h
    obtain ⟨hr, rfl⟩ := hclear h
    refine ⟨hr, .inl ⟨rfl, ?_⟩⟩
    rintro t rfl hne
    simp [truthy, Option.filter, hne] at htruthy
  | some t =>
    obtain ⟨rfl, -⟩ := Option.filter_eq_some_iff.mp htruthy
    simp only [logout, htruthy] at h
    rcases Exec.bind_iff.mp h with ⟨u, w₁, htry, hrest⟩ | ⟨e, htry, rfl⟩
    · obtain ⟨hr, rfl⟩ := hclear hrest
      refine ⟨hr, ?_⟩
      rcases Exec.tryCatch_iff.mp htry with ⟨u, hrevoke, -⟩ | ⟨e, w₂, hrevoke, hcatch⟩
      · rcases Exec.bind_iff.mp hrevoke with ⟨p, w₂, hverify, hdel⟩ | ⟨e, -, he⟩
        · obtain ⟨rfl, ⟨p', hvalid, hp⟩ | ⟨-, e, hp⟩⟩ := exec_verifyRefresh hverify
          · cases hp
            obtain ⟨_, u, w₃, hx, hret⟩ := Exec.call_iff.mp hdel
            cases hx
            cases hret
            exact .inr ⟨t, p, rfl, hvalid, rfl⟩
          · cases hp
        · cases he
      · cases hcatch
        rcases Exec.bind_iff.mp hrevoke with ⟨p, w₃, hverify, hdel⟩ | ⟨e', hverify, -⟩
        · obtain ⟨_, u, w₄, hx, hret⟩ := Exec.call_iff.mp hdel
          cases hret
        · obtain ⟨rfl, ⟨p', -, hp⟩ | ⟨hvalid, e, hp⟩⟩ := exec_verifyRefresh hverify
          · cases hp
          · refine .inl ⟨rfl, ?_⟩
            rintro t' heq -
            cases heq
            exact hvalid
    · rcases Exec.tryCatch_iff.mp htry with ⟨a, -, ha⟩ | ⟨e', w₂, -, hcatch⟩
      · cases ha
      · cases hcatch

end Flashkart
