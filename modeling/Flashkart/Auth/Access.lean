import Flashkart.Async.Moments
import Flashkart.Async.Typestate
import Flashkart.Auth.Effects
import Flashkart.Web.App

/-!
# Auth.Access

What lets a request through `requireAuth`. Nobody looks at the user again while an access token
lives, so all that is known of its bearer is what was checked when it was signed.

* `admitted`  — whoever is let through was looked up, active and in that role, by the request that
  signed the token, within its lifetime; and a login with the user's password is at the bottom of
  it.
* `shut_out`  — a user that is inactive from a moment on at which no request is being served is not
  let through once the lifetime of a token has passed.
-/

namespace Flashkart

open Async

/-! ## What the routes check

How far a request has come towards signing tokens. `seen` is the time of the look-up. -/

inductive Standing where
  | start
  | found (u : User) (seen : Nat)
  | presented (p : RefreshPayload)
  | granted (sub : String) (u : User) (seen : Nat)

structure Signer where
  req : AuthReq
  standing : Standing

namespace Signer

def after (time : Nat) : (o : authSig.Op) → Except Err (authSig.Ret o) → Standing → Standing
  | .inr (.userFindOne _), .ok (some u), _ => if u.active then .found u time else .start
  | .inr (.bcryptCompare ..), .ok true, .found u seen => .granted u.id.toString u seen
  | .inr (.jwtVerify ..), .ok (some (.refresh p)), _ => .presented p
  | .inr (.userFindById _), .ok (some u), .presented p =>
    if u.active then .granted p.sub u time else .start
  | _, _, s => s

def post (e : Event authSig Err) (l : Signer) : Signer :=
  { l with standing := after e.time e.op e.out l.standing }

theorem after_error (time : Nat) (o : AuthOp) (e : Err) (s : Standing) :
    after time (.inr o) (.error e) s = s := by
  cases o <;> rfl

/-- A password is compared with the hash of the user that was found for the login, and a token is
signed for the user that was found active, an access token with the role it had. -/
def ready (env : AuthEnv) (l : Signer) : authSig.Op → Prop
  | .inr (.userFindOne email) => ∃ password, l.req = .login (some ⟨email, password⟩)
  | .inr (.bcryptCompare plain hash) => ∃ email u seen, l.req = .login (some ⟨email, plain⟩) ∧
      l.standing = .found u seen ∧ hash = u.passwordHash
  | .inr (.userFindById id) => ∃ p, l.standing = .presented p ∧ id = p.sub
  | .inr (.jwtVerify _ secret) => secret = .JWT_REFRESH_SECRET
  | .inr (.jwtSign (.access sub role) secret ttl) => secret = .JWT_ACCESS_SECRET ∧
      ttl = env.JWT_ACCESS_TTL ∧ ∃ u seen, l.standing = .granted sub u seen ∧ role = u.role
  | .inr (.jwtSign (.refresh p) secret _) => secret = .JWT_REFRESH_SECRET ∧
      ∃ u seen, l.standing = .granted p.sub u seen
  | _ => True

variable {env : AuthEnv} {l : Signer} {α : Type}

abbrev Proves (env : AuthEnv) (p : AuthProg α) (l : Signer) : Prop :=
  Follows (ready env) post p l fun _ _ => True

theorem proves_db {o : AuthOp} {f : o.Ret → AuthProg α} (hready : ready env l (.inr o))
    (hok : ∀ time a, Proves env (f a) (post ⟨time, .inr o, .ok a⟩ l)) :
    Proves env (o.call.bind f) l := by
  refine follows_bind.mpr (follows_inr_op.mpr ⟨hready, fun time out => ?_⟩)
  cases out with
  | ok a => exact hok time a
  | error e => trivial

theorem proves_kv {o : KvOp String} {f : o.Ret → AuthProg α} (hok : ∀ a, Proves env (f a) l) :
    Proves env ((o.call.inl : AuthProg o.Ret).bind f) l := by
  refine follows_bind.mpr (follows_inl_op.mpr ⟨trivial, fun time out => ?_⟩)
  cases out with
  | ok a => exact hok a
  | error e => trivial

theorem proves_ofExcept {β : Type} {r : Except Err β} {f : β → AuthProg α}
    (hok : ∀ b, Proves env (f b) l) : Proves env ((Prog.ofExcept r).bind f) l := by
  refine follows_bind.mpr (follows_ofExcept.mpr ?_)
  cases r with
  | ok b => exact hok b
  | error e => trivial

theorem proves_maxAge {f : Nat → AuthProg α} (hok : ∀ n, Proves env (f n) l) :
    Proves env ((refreshCookieMaxAge env).bind f) l := by
  refine follows_bind.mpr (follows_bind.mpr (follows_ofExcept.mpr ?_))
  cases ttlToSeconds env.JWT_REFRESH_TTL with
  | ok ttl => exact hok (ttl * 1000)
  | error e => trivial

/-- The end of a login and of a refresh: both tokens are signed, and the new JTI is saved. -/
theorem proves_issue {r : AuthReq} {sub fam : String} {u : User} {seen : Nat}
    {res : RefreshToken → String → Nat → AuthRes} :
    Proves env ((signAccess env sub u.role).bind fun access =>
      (signRefresh env sub fam).bind fun t =>
        (Prog.ofExcept (ttlToSeconds env.JWT_REFRESH_TTL)).bind fun ttl =>
          (saveActiveJti sub fam t.jti ttl).bind fun _ =>
            (refreshCookieMaxAge env).bind fun maxAge => .ret (res t access maxAge))
      ⟨r, .granted sub u seen⟩ := by
  refine proves_db ⟨rfl, rfl, u, seen, rfl, rfl⟩ fun _ access => ?_
  refine follows_bind.mpr (follows_bind.mpr (follows_inr_op.mpr ⟨trivial, fun _ out => ?_⟩))
  cases out with
  | error e => trivial
  | ok jti =>
  refine follows_bind.mpr (follows_inr_op.mpr ⟨⟨rfl, u, seen, rfl⟩, fun _ out => ?_⟩)
  cases out with
  | error e => trivial
  | ok token =>
  refine proves_ofExcept fun ttl => proves_kv fun _ => proves_maxAge fun _ => trivial

theorem proves_login (body : Option Credentials) :
    Proves env (login env body) ⟨.login body, .start⟩ := by
  cases body with
  | none => trivial
  | some body =>
    refine proves_db ⟨_, rfl⟩ fun time user => ?_
    cases hu : user.filter (·.active) with
    | none => trivial
    | some u =>
      obtain ⟨rfl, hactive⟩ := Option.filter_eq_some_iff.mp hu
      have hfound : post ⟨time, .inr (.userFindOne body.email), .ok (some u)⟩
          ⟨.login (some body), .start⟩ = ⟨.login (some body), .found u time⟩ :=
        congrArg (Signer.mk _) (if_pos hactive)
      rw [hfound]
      refine proves_db ⟨_, u, time, rfl, rfl, rfl⟩ fun _ ok => ?_
      cases ok with
      | false => trivial
      | true => exact proves_db (o := .randomUUID) trivial fun _ fam => proves_issue

theorem proves_verifyRefresh {token : String} {r : AuthReq}
    {Q : Except Err RefreshPayload → Signer → Prop} (hok : ∀ p, Q (.ok p) ⟨r, .presented p⟩)
    (herr : ∀ e l', Q (.error e) l') :
    Follows (ready env) post (verifyRefresh token) ⟨r, .start⟩ Q := by
  refine follows_bind.mpr (follows_inr_op.mpr ⟨rfl, fun _ out => ?_⟩)
  rcases out with e | _ | (_ | p)
  · exact herr _ _
  · exact herr _ _
  · exact herr _ _
  · exact hok p

theorem proves_rotate (p : RefreshPayload) (r : AuthReq) :
    Proves env (rotate env p) ⟨r, .presented p⟩ := by
  refine proves_kv fun active => ?_
  cases truthy active with
  | none => trivial
  | some jti =>
    dsimp only
    split
    · exact proves_kv fun _ => trivial
    · refine proves_db ⟨p, rfl, rfl⟩ fun time user => ?_
      cases hu : user.filter (·.active) with
      | none => exact proves_kv fun _ => trivial
      | some u =>
        obtain ⟨rfl, hactive⟩ := Option.filter_eq_some_iff.mp hu
        have hgranted : post ⟨time, .inr (.userFindById p.sub), .ok (some u)⟩ ⟨r, .presented p⟩ =
            ⟨r, .granted p.sub u time⟩ := congrArg (Signer.mk _) (if_pos hactive)
        rw [hgranted]
        exact proves_issue

theorem proves_authProg (r : AuthReq) : Proves env (authProg env r) ⟨r, .start⟩ := by
  cases r with
  | login body => exact proves_login body
  | refresh frt =>
    show Proves env (refresh env frt) _
    unfold refresh
    cases truthy frt with
    | none => trivial
    | some token =>
      refine follows_bind.mpr (follows_tryCatch.mpr (proves_verifyRefresh (fun p => ?_) ?_))
      · exact proves_rotate p _
      · exact fun _ _ => trivial
  | logout frt =>
    show Proves env (logout env frt) _
    have hrest : ∀ l',
        Proves env ((refreshCookieMaxAge env).bind fun _ => .ret AuthRes.loggedOut) l' :=
      fun l' => proves_maxAge fun _ => trivial
    unfold logout
    cases truthy frt with
    | none => exact hrest _
    | some token =>
      refine follows_bind.mpr (follows_tryCatch.mpr (follows_bind.mpr
        (proves_verifyRefresh (fun p => ?_) fun _ l' => hrest l')))
      refine follows_inl_op.mpr ⟨trivial, fun _ out => ?_⟩
      cases out with
      | ok _ => exact hrest _
      | error _ => exact hrest _

end Signer

/-- How far a request has come. -/
def signer (t : AuthThread) : Signer := t.account Signer.post fun _ r => ⟨r, .start⟩

/-! ## Runs -/

section Runs

variable {env : AuthEnv} {lib : AuthLib} {ok : AuthConfig → AuthAct → Bool} {c₀ c c' : AuthConfig}
  {as : List AuthAct} {a : AuthAct}

/-- At the time `seen` of the run `u` was among the users, and active. -/
def LookedUp (env : AuthEnv) (lib : AuthLib) (ok : AuthConfig → AuthAct → Bool) (c₀ : AuthConfig)
    (as : List AuthAct) (u : User) (seen : Nat) : Prop :=
  ∃ c₁, (authSystem env lib).Moment ok c₀ as c₁ ∧ c₁.now = seen ∧ u ∈ c₁.world.2.users ∧
    u.active = true

/-- There was a login with the email and the password of the user with the id `sub`. -/
def LoggedIn (env : AuthEnv) (lib : AuthLib) (ok : AuthConfig → AuthAct → Bool) (c₀ : AuthConfig)
    (as : List AuthAct) (c : AuthConfig) (sub : String) : Prop :=
  ∃ t ∈ c.pool, ∃ email password u seen, t.req = .login (some ⟨email, password⟩) ∧
    LookedUp env lib ok c₀ as u seen ∧ u.email = lower email ∧
    lib.compare password u.passwordHash = true ∧ u.id.toString = sub

/-- What is known of a request from how far it has come. -/
def Signer.Good (env : AuthEnv) (lib : AuthLib) (ok : AuthConfig → AuthAct → Bool)
    (c₀ : AuthConfig) (as : List AuthAct) (c : AuthConfig) (l : Signer) : Prop :=
  match l.standing with
  | .start => True
  | .found u seen => LookedUp env lib ok c₀ as u seen ∧ seen ≤ c.now ∧
      ∀ body, l.req = .login (some body) → u.email = lower body.email
  | .presented p => LoggedIn env lib ok c₀ as c p.sub
  | .granted sub u seen => LookedUp env lib ok c₀ as u seen ∧ seen ≤ c.now ∧ sub = u.id.toString ∧
      LoggedIn env lib ok c₀ as c sub

/-- What is known of a token that was signed. -/
def SignedToken.Backed (env : AuthEnv) (lib : AuthLib) (ok : AuthConfig → AuthAct → Bool)
    (c₀ : AuthConfig) (as : List AuthAct) (c : AuthConfig) (d : SignedToken) : Prop :=
  match d.payload with
  | .access sub role => LoggedIn env lib ok c₀ as c sub ∧ ∃ u seen signed,
      LookedUp env lib ok c₀ as u seen ∧ u.id.toString = sub ∧ u.role = role ∧ seen ≤ signed ∧
      signed ≤ c.now ∧ d.expiry = lib.expires signed env.JWT_ACCESS_TTL
  | .refresh p => LoggedIn env lib ok c₀ as c p.sub

theorem LookedUp.append {u : User} {seen : Nat} (h : LookedUp env lib ok c₀ as u seen) :
    LookedUp env lib ok c₀ (as ++ [a]) u seen := by
  obtain ⟨c₁, hmoment, hrest⟩ := h
  exact ⟨c₁, hmoment.append, hrest⟩

/-- Who is a user now is seen now. -/
theorem LookedUp.now (h : (authSystem env lib).run ok c₀ as = some c) {u : User}
    (hu : u ∈ c.world.2.users) (hactive : u.active = true) :
    LookedUp env lib ok c₀ (as ++ [a]) u c.now :=
  ⟨c, ⟨as, List.prefix_append _ _, h⟩, rfl, hu, hactive⟩

theorem step_keeps (hok : ok c a = true) (hs : (authSystem env lib).step c a = some c') :
    c.now ≤ c'.now ∧ ∀ t ∈ c.pool, ∃ t' ∈ c'.pool, t'.req = t.req := by
  have hone : (authSystem env lib).Reachable (fun c a => ok c a = true) c c' := .step .init hok hs
  refine ⟨hone.later.1, fun t ht => ?_⟩
  obtain ⟨i, hi⟩ := List.getElem?_of_mem ht
  obtain ⟨t', ht', hreq, -⟩ := (hone.later.2 i).1 t hi
  exact ⟨t', List.mem_of_getElem? ht', hreq⟩

section Step

variable (hok : ok c a = true) (hs : (authSystem env lib).step c a = some c')

include hok hs

theorem LoggedIn.step {sub : String} (h : LoggedIn env lib ok c₀ as c sub) :
    LoggedIn env lib ok c₀ (as ++ [a]) c' sub := by
  obtain ⟨t, ht, email, password, u, seen, hreq, hseen, hrest⟩ := h
  obtain ⟨t', ht', hreq'⟩ := (step_keeps hok hs).2 t ht
  exact ⟨t', ht', email, password, u, seen, hreq'.trans hreq, hseen.append, hrest⟩

theorem Signer.Good.step {l : Signer} (h : l.Good env lib ok c₀ as c) :
    l.Good env lib ok c₀ (as ++ [a]) c' := by
  have hnow := (step_keeps hok hs).1
  obtain ⟨r, _ | ⟨u, seen⟩ | p | ⟨sub, u, seen⟩⟩ := l
  · trivial
  · exact ⟨h.1.append, h.2.1.trans hnow, h.2.2⟩
  · exact LoggedIn.step hok hs h
  · exact ⟨h.1.append, h.2.1.trans hnow, h.2.2.1, LoggedIn.step hok hs h.2.2.2⟩

theorem SignedToken.Backed.step {d : SignedToken} (h : d.Backed env lib ok c₀ as c) :
    d.Backed env lib ok c₀ (as ++ [a]) c' := by
  obtain ⟨secret, token, ⟨sub, role⟩ | p, expiry⟩ := d
  · obtain ⟨hlogin, u, seen, signed, hseen, hsub, hrole, hle, hsigned, hexpiry⟩ := h
    exact ⟨hlogin.step hok hs, u, seen, signed, hseen.append, hsub, hrole, hle,
      hsigned.trans (step_keeps hok hs).1, hexpiry⟩
  · exact LoggedIn.step hok hs h

end Step

/-- What a call adds to the tokens. -/
theorem signed_store {now i : Nat} {o : AuthOp} {s : String} {db db' : AuthDb} {x : o.Ret}
    (h : authDbStore lib now i o s db = some (x, db')) :
    db'.users = db.users ∧ ∀ d ∈ db'.signed, d ∈ db.signed ∨ ∃ payload secret ttl,
      o = .jwtSign payload secret ttl ∧ d = ⟨secret, s, payload, lib.expires now ttl⟩ := by
  cases o with
  | jwtSign payload secret ttl =>
    simp only [authDbStore] at h
    split at h
    · cases h
    · cases h
      refine ⟨rfl, fun d hd => ?_⟩
      rcases List.mem_cons.mp hd with rfl | hd
      · exact .inr ⟨payload, secret, ttl, rfl, rfl⟩
      · exact .inl hd
  | randomUUID =>
    simp only [authDbStore] at h
    split at h
    · cases h
    · cases h
      exact ⟨rfl, fun d hd => .inl hd⟩
  | userFindById id =>
    obtain ⟨u, -, heq⟩ := Option.map_eq_some_iff.mp h
    cases heq
    exact ⟨rfl, fun d hd => .inl hd⟩
  | _ => cases h; exact ⟨rfl, fun d hd => .inl hd⟩

theorem answered_db {now i : Nat} {o : AuthOp} {f : Fate Err String} {x : o.Ret} {w w' : AuthWorld}
    (hx : (authStore lib).exec now i (.inr o) f w = some (.ok x, w')) :
    ∃ s, authDbStore lib now i o s w.2 = some (x, w'.2) := by
  rcases Store.exec_cases (Store.exec_sum_inr (g := authDbStore lib) hx).1 with
    ⟨s, x', -, hx, heq⟩ | ⟨e, -, -, heq⟩ | ⟨e, s, x', -, -, heq⟩
  · cases heq
    exact ⟨s, hx⟩
  · cases heq
  · cases heq

/-- A call of a request that keeps to the automaton, and what is known of the request after it. -/
theorem good_call (hrun : (authSystem env lib).run ok c₀ as = some c) (hok : ok c a = true)
    (hs : (authSystem env lib).step c a = some c')
    (htokens : ∀ d ∈ c.world.2.signed, d.Backed env lib ok c₀ as c) {l : Signer}
    (hl : l.Good env lib ok c₀ as c) (hreq : ∃ t ∈ c'.pool, t.req = l.req) {i : Nat}
    {o : authSig.Op} {f : Fate Err String} {out : Except Err (authSig.Ret o)} {w : AuthWorld}
    (hready : l.ready env o) (hx : (authStore lib).exec c.now i o f c.world = some (out, w)) :
    (Signer.post ⟨c.now, o, out⟩ l).Good env lib ok c₀ (as ++ [a]) c' := by
  have hkept := hl.step hok hs
  cases o with
  | inl k => exact hkept
  | inr o =>
    cases out with
    | error e =>
      rw [Signer.post, Signer.after_error]
      exact hkept
    | ok x =>
      obtain ⟨s, hx⟩ := answered_db hx
      obtain ⟨r, standing⟩ := l
      cases o with
      | userFindOne email =>
        cases x with
        | none => exact hkept
        | some u =>
          have hfind : c.world.2.users.find? (fun u => u.email = lower email) = some u :=
            (Prod.mk.inj (Option.some.inj hx)).1
          show Signer.Good _ _ _ _ _ _ ⟨r, if u.active then .found u c.now else .start⟩
          split
          · rename_i hactive
            refine ⟨.now hrun (List.mem_of_find?_eq_some hfind) hactive, (step_keeps hok hs).1, ?_⟩
            intro body hbody
            obtain ⟨password, hlogin⟩ := hready
            cases hlogin.symm.trans hbody
            simpa using List.find?_some hfind
          · trivial
      | bcryptCompare plain hash =>
        cases x with
        | false => exact hkept
        | true =>
          obtain ⟨email, u, seen, hlogin, rfl, rfl⟩ := hready
          obtain ⟨hseen, hle, hemail⟩ := hkept
          obtain ⟨t, ht, hreq⟩ := hreq
          have hcompare : lib.compare plain u.passwordHash = true :=
            (Prod.mk.inj (Option.some.inj hx)).1
          exact ⟨hseen, hle, rfl, t, ht, email, plain, u, seen, hreq.trans hlogin, hseen,
            hemail _ hlogin, hcompare, rfl⟩
      | jwtVerify token secret =>
        rcases x with _ | (_ | p)
        · exact hkept
        · exact hkept
        · obtain ⟨d, hd, hp⟩ := Option.map_eq_some_iff.mp (Prod.mk.inj (Option.some.inj hx)).1
          have hbacked := htokens d (List.mem_of_find?_eq_some hd)
          rw [SignedToken.Backed, hp] at hbacked
          exact LoggedIn.step hok hs hbacked
      | userFindById id =>
        cases x with
        | none => exact hkept
        | some u =>
          obtain ⟨p, rfl, rfl⟩ := hready
          have hlogin : LoggedIn env lib ok c₀ (as ++ [a]) c' p.sub := hkept
          obtain ⟨v, hcast, heq⟩ := Option.map_eq_some_iff.mp hx
          have hfind : c.world.2.users.find? (fun u => u.id = v) = some u := (Prod.mk.inj heq).1
          show Signer.Good _ _ _ _ _ _ ⟨r, if u.active then .granted p.sub u c.now else .start⟩
          split
          · rename_i hactive
            refine ⟨.now hrun (List.mem_of_find?_eq_some hfind) hactive, (step_keeps hok hs).1, ?_,
              hlogin⟩
            -- the id of a token is in its canonical spelling, since a login wrote it
            obtain ⟨-, -, -, -, v', -, -, -, -, -, hsub⟩ := hlogin
            have huser : u.id = v := by simpa using List.find?_some hfind
            rw [← hsub, castObjectId_toString] at hcast
            rw [← hsub, huser, Option.some.inj hcast]
          · trivial
      | randomUUID => exact hkept
      | jwtSign payload secret ttl => exact hkept

/-- What is known of the requests and of the tokens of a run. -/
theorem backed_run {n : Nat} {users : List User}
    (hrun : (authSystem env lib).run ok (freshAuth n users) as = some c) :
    (∀ t ∈ c.pool, (signer t).Good env lib ok (freshAuth n users) as c) ∧
      ∀ d ∈ c.world.2.signed, d.Backed env lib ok (freshAuth n users) as c := by
  refine System.run_induction (I := fun as c =>
    (∀ t ∈ c.pool, (signer t).Good env lib ok (freshAuth n users) as c) ∧
      ∀ d ∈ c.world.2.signed, d.Backed env lib ok (freshAuth n users) as c) hrun
    ⟨fun t ht => (by cases ht), fun d hd => (by cases hd)⟩ ?_
  rintro as c a c' hrun ⟨hpool, htokens⟩ hok hs
  have hkept : ∀ t ∈ c.pool, (signer t).Good env lib ok (freshAuth n users) (as ++ [a]) c' :=
    fun t ht => (hpool t ht).step hok hs
  have hold : ∀ d ∈ c.world.2.signed, d.Backed env lib ok (freshAuth n users) (as ++ [a]) c' :=
    fun d hd => (htokens d hd).step hok hs
  cases a with
  | arrive r =>
    cases hs
    refine ⟨fun t ht => ?_, hold⟩
    rcases List.mem_append.mp ht with ht | ht
    · exact hkept t ht
    · rw [List.mem_singleton.mp ht]
      trivial
  | call i f =>
    have hstep := hs
    obtain ⟨id, r, o, k, tr, out, w, hp, hx, rfl⟩ := System.callStep_eq_some hs
    have hmem := List.mem_of_getElem? hp
    have hfollows : Follows (Signer.ready env) Signer.post (.call o k)
        (signer ⟨id, r, .call o k, tr⟩) fun _ _ => True :=
      (System.Reachable.of_run hrun).follows rfl (fun _ r => Signer.proves_authProg r) _ hmem
    have hreq : ∀ tr' : List (Event authSig Err),
        (tr'.foldr Signer.post ⟨r, .start⟩).req = r := by
      intro tr'
      induction tr' with
      | nil => rfl
      | cons e tr' ih => exact ih
    refine ⟨fun t ht => ?_, fun d hd => ?_⟩
    · rcases List.mem_or_eq_of_mem_set ht with ht | rfl
      · exact hkept t ht
      · refine good_call hrun hok hstep htokens (hpool _ hmem)
          ⟨⟨id, r, k out, ⟨c.now, o, out⟩ :: tr⟩, ?_, (hreq tr).symm⟩ hfollows.1 hx
        exact List.mem_set (List.getElem?_eq_some_iff.mp hp).1 _
    · cases o with
      | inl k =>
        have hdb : w.2 = c.world.2 := (Store.exec_sum_inl (f := kvStore) hx).2
        exact hold d (hdb ▸ hd)
      | inr o =>
        rcases Store.exec_effect (Store.exec_sum_inr (g := authDbStore lib) hx).1 with
          ⟨-, s, x, hx, -⟩ | ⟨-, hdb, -⟩
        · rcases (signed_store hx).2 d hd with hd | ⟨payload, secret, ttl, rfl, rfl⟩
          · exact hold d hd
          · have hgood := hkept _ hmem
            cases payload with
            | access sub role =>
              obtain ⟨-, rfl, u, seen, hgranted, rfl⟩ := hfollows.1
              rw [Signer.Good, hgranted] at hgood
              obtain ⟨hseen, hle, hsub, hlogin⟩ := hgood
              exact ⟨hlogin, u, seen, c.now, hseen, hsub.symm, rfl, hle, le_rfl, rfl⟩
            | refresh p =>
              obtain ⟨-, u, seen, hgranted⟩ := hfollows.1
              rw [Signer.Good, hgranted] at hgood
              exact hgood.2.2.2
        · exact hold d (hdb ▸ hd)
  | tick d => cases hs; exact ⟨hkept, hold⟩
  | env e => cases hs; exact ⟨hkept, hold⟩

/-- A token that verifies was signed and has not expired. -/
theorem exec_verifyAccess {now i : Nat} {token sub : String} {role : Role} {w w' : AuthWorld}
    (h : Exec (authStore lib) now i (verifyAccess token) w (.ok (sub, role)) w') :
    ∃ d ∈ w.2.signed, d.payload = .access sub role ∧ now < d.expiry := by
  obtain ⟨s, decoded, db, hx, hverify⟩ := Exec.inr_op_iff.mp h
  rcases decoded with _ | (⟨sub', role'⟩ | p)
  · cases hverify
  · cases hverify
    obtain ⟨d, hd, hp⟩ := Option.map_eq_some_iff.mp (Prod.mk.inj (Option.some.inj hx)).1
    have hfound := List.find?_some hd
    simp only [decide_eq_true_eq] at hfound
    exact ⟨d, List.mem_of_find?_eq_some hd, hp, hfound.2.2⟩
  · cases hverify

theorem exec_requireAuth {now i : Nat} {authorization : Option String} {sub : String} {role : Role}
    {w w' : AuthWorld}
    (h : Exec (authStore lib) now i (requireAuth authorization) w (.ok (sub, role)) w') :
    ∃ d ∈ w.2.signed, d.payload = .access sub role ∧ now < d.expiry := by
  unfold requireAuth at h
  cases hauth : truthy authorization with
  | none =>
    rw [hauth] at h
    cases h
  | some token =>
    rw [hauth] at h
    rcases Exec.tryCatch_iff.mp h with ⟨payload, hverify, heq⟩ | ⟨e, w₁, -, hthrow⟩
    · cases heq
      exact exec_verifyAccess hverify
    · cases hthrow

end Runs

def Off (o : ObjectId) (users : List User) : Prop := ∀ u ∈ users, u.id = o → u.active = false

/-- The user is not turned on again. -/
def staysOff (o : ObjectId) (_ : AuthConfig) : AuthAct → Prop
  | .env users => Off o users
  | _ => True

/-- It is not `o` that was looked up. -/
def Standing.Clear (o : ObjectId) : Standing → Prop
  | .found u _ => u.id ≠ o
  | .granted sub _ _ => sub ≠ o.toString
  | _ => True

section Off

variable {env : AuthEnv} {lib : AuthLib} {o : ObjectId} {c c' : AuthConfig}

/-- As long as the user is off, no request finds it. -/
theorem clear_call {now i : Nat} {op : authSig.Op} {f : Fate Err String}
    {out : Except Err (authSig.Ret op)} {w w' : AuthWorld} {l : Signer} (hoff : Off o w.2.users)
    (hl : l.standing.Clear o) (hready : l.ready env op)
    (hx : (authStore lib).exec now i op f w = some (out, w')) :
    (Signer.post ⟨now, op, out⟩ l).standing.Clear o := by
  cases op with
  | inl k => exact hl
  | inr op =>
    cases out with
    | error e =>
      rw [Signer.post, Signer.after_error]
      exact hl
    | ok x =>
      obtain ⟨s, hx⟩ := answered_db hx
      obtain ⟨r, standing⟩ := l
      cases op with
      | userFindOne email =>
        cases x with
        | none => exact hl
        | some u =>
          have hfind : w.2.users.find? (fun u => u.email = lower email) = some u :=
            (Prod.mk.inj (Option.some.inj hx)).1
          show Standing.Clear o (if u.active then .found u now else .start)
          split
          · rename_i hactive
            intro ho
            rw [hoff u (List.mem_of_find?_eq_some hfind) ho] at hactive
            cases hactive
          · trivial
      | bcryptCompare plain hash =>
        cases x with
        | false => exact hl
        | true =>
          obtain ⟨email, u, seen, -, rfl, -⟩ := hready
          exact fun heq => hl (ObjectId.toString_injective heq)
      | jwtVerify token secret =>
        rcases x with _ | (_ | p)
        · exact hl
        · exact hl
        · trivial
      | userFindById id =>
        cases x with
        | none => exact hl
        | some u =>
          obtain ⟨p, rfl, rfl⟩ := hready
          obtain ⟨v, hcast, heq⟩ := Option.map_eq_some_iff.mp hx
          have hfind : w.2.users.find? (fun u => u.id = v) = some u := (Prod.mk.inj heq).1
          show Standing.Clear o (if u.active then .granted p.sub u now else .start)
          split
          · rename_i hactive
            intro hsub
            rw [hsub, castObjectId_toString] at hcast
            have huser : u.id = v := by simpa using List.find?_some hfind
            rw [hoff u (List.mem_of_find?_eq_some hfind)
              (huser.trans (Option.some.inj hcast).symm)] at hactive
            cases hactive
          · trivial
      | randomUUID => exact hl
      | jwtSign payload secret ttl => exact hl

/-- From `c₁` on: the user is off, no request that is being served has found it, and its access
tokens were signed before. -/
structure ShutOut (env : AuthEnv) (lib : AuthLib) (o : ObjectId) (signed : Nat) (c : AuthConfig) :
    Prop where
  off : Off o c.world.2.users
  clear : ∀ t ∈ c.pool, t.prog.result = none → (signer t).standing.Clear o
  tokens : ∀ d ∈ c.world.2.signed, ∀ role, d.payload = .access o.toString role →
    d.expiry ≤ lib.expires signed env.JWT_ACCESS_TTL

theorem ShutOut.step {ok : System.Guard authSig Err AuthReq AuthRes AuthWorld String (List User)}
    {n signed : Nat} {users : List User} {a : AuthAct} (h : ShutOut env lib o signed c)
    (hr : (authSystem env lib).Reachable ok (freshAuth n users) c) (hok : staysOff o c a)
    (hs : (authSystem env lib).step c a = some c') : ShutOut env lib o signed c' := by
  cases a with
  | arrive r =>
    cases hs
    refine ⟨h.off, fun t ht hrunning => ?_, h.tokens⟩
    rcases List.mem_append.mp ht with ht | ht
    · exact h.clear t ht hrunning
    · rw [List.mem_singleton.mp ht]
      trivial
  | call i f =>
    obtain ⟨id, r, op, k, tr, out, w, hp, hx, rfl⟩ := System.callStep_eq_some hs
    have hmem := List.mem_of_getElem? hp
    have hfollows : Follows (Signer.ready env) Signer.post (.call op k)
        (signer ⟨id, r, .call op k, tr⟩) fun _ _ => True :=
      hr.follows rfl (fun _ r => Signer.proves_authProg r) _ hmem
    have hclear := h.clear _ hmem rfl
    have hdb : w.2.users = c.world.2.users ∧ ∀ d ∈ w.2.signed, d ∈ c.world.2.signed ∨
        ∃ payload secret ttl s, op = .inr (.jwtSign payload secret ttl) ∧
          d = ⟨secret, s, payload, lib.expires c.now ttl⟩ := by
      cases op with
      | inl k =>
        have hsame : w.2 = c.world.2 := (Store.exec_sum_inl (f := kvStore) hx).2
        exact ⟨by rw [hsame], fun d hd => .inl (hsame ▸ hd)⟩
      | inr op =>
        rcases Store.exec_effect (Store.exec_sum_inr (g := authDbStore lib) hx).1 with
          ⟨-, s, x, hx, -⟩ | ⟨-, hsame, -⟩
        · refine ⟨(signed_store hx).1, fun d hd => ?_⟩
          rcases (signed_store hx).2 d hd with hd | ⟨payload, secret, ttl, rfl, rfl⟩
          · exact .inl hd
          · exact .inr ⟨payload, secret, ttl, s, rfl, rfl⟩
        · exact ⟨by rw [hsame], fun d hd => .inl (hsame ▸ hd)⟩
    refine ⟨hdb.1 ▸ h.off, fun t ht hrunning => ?_, fun d hd role hpayload => ?_⟩
    · rcases List.mem_or_eq_of_mem_set ht with ht | rfl
      · exact h.clear t ht hrunning
      · exact clear_call h.off hclear hfollows.1 hx
    · rcases hdb.2 d hd with hd | ⟨payload, secret, ttl, s, rfl, rfl⟩
      · exact h.tokens d hd role hpayload
      · obtain rfl : payload = .access o.toString role := hpayload
        obtain ⟨-, -, u, seen, hgranted, -⟩ := hfollows.1
        rw [hgranted] at hclear
        exact absurd rfl hclear
  | tick d => cases hs; exact ⟨h.off, h.clear, h.tokens⟩
  | env users' => cases hs; exact ⟨hok, h.clear, h.tokens⟩

/-- **A user that is turned off is shut out.** When no request is being served as it happens, and it
is not turned on again, none of its access tokens is accepted once the lifetime of one has passed,
whatever requests are made in between. -/
theorem shut_out {ok : AuthConfig → AuthAct → Bool} {as : List AuthAct} {n : Nat}
    {users : List User} {c₁ : AuthConfig} (hlib : ∀ ttl, Monotone fun now => lib.expires now ttl)
    (hrun : (authSystem env lib).run ok (freshAuth n users) as = some c₁) (hquiet : c₁.Quiet)
    (hoff : Off o c₁.world.2.users) (h : (authSystem env lib).Reachable (staysOff o) c₁ c)
    (hlate : lib.expires c₁.now env.JWT_ACCESS_TTL ≤ c.now) (i : Nat)
    (authorization : Option String) (role : Role) (w' : AuthWorld) :
    ¬Exec (authStore lib) c.now i (requireAuth authorization) c.world
      (.ok (o.toString, role)) w' := by
  have hstart : ShutOut env lib o c₁.now c₁ := by
    refine ⟨hoff, fun t ht hrunning => absurd hrunning (hquiet t ht), fun d hd role hpayload => ?_⟩
    have hbacked := (backed_run hrun).2 d hd
    rw [SignedToken.Backed, hpayload] at hbacked
    obtain ⟨-, u, seen, signed, -, -, -, -, hsigned, hexpiry⟩ := hbacked
    exact hexpiry ▸ hlib _ hsigned
  have hreach : (authSystem env lib).Reachable (fun _ _ => True) (freshAuth n users) c₁ :=
    (System.Reachable.of_run hrun).mono fun _ _ _ => trivial
  have hshut : ShutOut env lib o c₁.now c := by
    refine h.invariant (I := ShutOut env lib o c₁.now) hstart fun c₂ a c₃ hr hinv hok hs => ?_
    exact hinv.step (hreach.trans (hr.mono fun _ _ _ => trivial)) hok hs
  intro hx
  obtain ⟨d, hd, hpayload, hlive⟩ := exec_requireAuth hx
  have := hshut.tokens d hd role hpayload
  omega

end Off

/-- The user is turned off after the login: the token is good at first, and no more after 15
minutes. -/
theorem shut_out_turned : ∃ c₁ c w', (authSystem envVars authLib).run (fun _ _ => true)
      (freshAuth 0 [userA]) (loggedIn ++ [.env [{ userA with active := false }]]) = some c₁ ∧
    (authSystem envVars authLib).step c₁ (.tick 900000) = some c ∧
    Exec (authStore authLib) c₁.now 1 (requireAuth (some "at")) c₁.world
      (.ok (userA.id.toString, .buyer)) w' ∧
    ∀ role w', ¬Exec (authStore authLib) c.now 1 (requireAuth (some "at")) c.world
      (.ok (userA.id.toString, role)) w' := by
  have hrun : ((authSystem envVars authLib).run (fun _ _ => true) (freshAuth 0 [userA])
      (loggedIn ++ [.env [{ userA with active := false }]])).map (fun c =>
        (c.now, c.world.2.users, c.pool.all fun t => t.prog.result.isSome,
          ((requireAuth (some "at")).exec (authStore authLib) c.now 1 [""] c.world).bind
            fun x => x.1.toOption)) =
      some (0, [{ userA with active := false }], true, some (userA.id.toString, .buyer)) := by
    decide
  obtain ⟨c₁, hc, hs⟩ := Option.map_eq_some_iff.mp hrun
  obtain ⟨hnow, hs⟩ := Prod.mk.inj hs
  obtain ⟨husers, hs⟩ := Prod.mk.inj hs
  obtain ⟨hended, hauth⟩ := Prod.mk.inj hs
  obtain ⟨⟨r, w'⟩, hexec, hr⟩ := Option.bind_eq_some_iff.mp hauth
  cases r with
  | error e => cases hr
  | ok a =>
    cases hr
    have hquiet : c₁.Quiet := by
      intro t ht hnone
      have := List.all_eq_true.mp hended t ht
      rw [hnone] at this
      cases this
    have hoff : Off userA.id c₁.world.2.users := by
      rw [husers]
      intro u hu _
      rw [List.mem_singleton.mp hu]
    have hlib : ∀ ttl, Monotone fun now => authLib.expires now ttl :=
      fun ttl a b h => Nat.add_le_add_right h _
    have hlate : authLib.expires c₁.now envVars.JWT_ACCESS_TTL ≤ c₁.now + 900000 := by
      rw [hnow]
      decide
    have hwait : (authSystem envVars authLib).Reachable (staysOff userA.id) c₁
        { c₁ with now := c₁.now + 900000 } := .step (a := .tick 900000) .init trivial rfl
    exact ⟨c₁, _, w', hc, rfl, .of_exec hexec, fun role w' =>
      shut_out hlib hc hquiet hoff hwait hlate 1 (some "at") role w'⟩

end Flashkart
