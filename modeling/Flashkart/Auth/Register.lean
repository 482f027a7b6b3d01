import Flashkart.Async.Script
import Flashkart.Auth.Access
import Flashkart.Web.Seamless

/-!
# Auth.Register

`POST /auth/register`, from the point where the limiter has let the request through, and what its
accounts are good for.

That an email is free is checked long before the account is made, and two requests can both find it
so. What keeps it unique is the index on the email alone.

* `registered`        — whoever is answered has the one account of the email, with the password.
* `let_in_registered` — whoever is let through has an account that a registration has made, as a
  buyer, and has logged in with its password.
* `registered_login`  — once a registration is answered, a login with that email succeeds exactly
  with the password.
-/

namespace Flashkart

open Async

/-! ## The users' collection -/

/-- The white space that `String.prototype.trim` takes away. -/
def isSpace (c : Char) : Bool :=
  [0x9, 0xa, 0xb, 0xc, 0xd, 0x20, 0xa0, 0x1680, 0x2028, 0x2029, 0x202f, 0x205f, 0x3000,
    0xfeff].contains c.toNat || (0x2000 ≤ c.toNat && c.toNat ≤ 0x200a)

def trim (s : String) : String :=
  String.ofList ((s.toList.dropWhile isSpace).reverse.dropWhile isSpace).reverse

/-- The schema's `lowercase` and `trim`, for documents and queries. -/
def emailOf (email : String) : String := lower (trim email)

inductive AccountOp where
  | userFindOne (email : String)
  | bcryptHash (plain : String)
  | userCreate (email name passwordHash : String)
  deriving DecidableEq

abbrev AccountOp.Ret : AccountOp → Type
  | .userFindOne _ => Option User
  | .bcryptHash _ => String
  | .userCreate .. => Option User

/-- The choice is the salt, or the new id. `userCreate` answers `none` where it throws: a required
field is empty, or the index has the email. -/
def accountStore (hash : String → String → String) :
    Store ⟨AccountOp, AccountOp.Ret⟩ (List User) String
  | _, _, .userFindOne email, _, w => some (w.find? fun u => u.email = emailOf email, w)
  | _, _, .bcryptHash plain, salt, w => some (hash plain salt, w)
  | _, _, .userCreate email name passwordHash, s, w =>
    if trim email = "" ∨ trim name = "" ∨ passwordHash = "" ∨ emailOf email ∈ w.map (·.email) then
      some (none, w)
    else (castObjectId s).bind fun o =>
      if o ∈ w.map (·.id) then none
      else
        let user : User := ⟨o, emailOf email, trim name, passwordHash, .buyer, true⟩
        some (some user, w ++ [user])

abbrev AccountProg (α : Type) : Type := Prog ⟨AccountOp, AccountOp.Ret⟩ Err α

def AccountOp.call (o : AccountOp) : AccountProg o.Ret :=
  @Prog.op ⟨AccountOp, AccountOp.Ret⟩ Err o

/-! ## The route -/

/-- What `registerSchema` lets through: there is no white space in an email. -/
structure RegisterBody where
  email : String
  name : String
  password : String
  spaceless : ∀ c ∈ email.toList, isSpace c = false
  deriving DecidableEq

/-- The answer is of status 201. `body` is what `registerSchema` makes of the body. -/
def register : Option RegisterBody → AccountProg UserView
  | none => .throw (.app (badRequest "invalid input"))
  | some body => do
    let existing ← (AccountOp.userFindOne body.email).call
    match existing with
    | some _ => .throw (.app (conflict "email already registered"))
    | none =>
      let passwordHash ← (AccountOp.bcryptHash body.password).call
      let created ← (AccountOp.userCreate body.email body.name passwordHash).call
      match created with
      | none => .throw (.error "user not created")
      | some user => return ⟨user.id.toString, user.email, user.name, user.role⟩

/-- What is done to users by hand, there being no route for it. -/
inductive UserEdit where
  | setActive (id : ObjectId) (active : Bool)
  | setRole (id : ObjectId) (role : Role)

def UserEdit.apply : UserEdit → User → User
  | .setActive id active, u => if u.id = id then { u with active := active } else u
  | .setRole id role, u => if u.id = id then { u with role := role } else u

def accountSystem (hash : String → String → String) :
    System ⟨AccountOp, AccountOp.Ret⟩ Err (Option RegisterBody) UserView (List User) String
      UserEdit where
  store := accountStore hash
  prog := register
  accept := fun _ _ _ w => some w
  env := fun _ e w => some (w.map e.apply)

abbrev AccountConfig : Type :=
  Config ⟨AccountOp, AccountOp.Ret⟩ Err (Option RegisterBody) UserView (List User)
abbrev AccountThread : Type :=
  Thread ⟨AccountOp, AccountOp.Ret⟩ Err (Option RegisterBody) UserView
abbrev AccountAct : Type := Act Err (Option RegisterBody) String UserEdit

def freshAccounts (now : Nat) (users : List User) : AccountConfig := .init now users

/-! A registration, and a salted hash. -/

def bodyB : RegisterBody where
  email := "B@test.local"
  name := " B "
  password := "password2"
  spaceless := by simp [isSpace]

def saltedHash (plain salt : String) : String := salt ++ plain

def saltedLib : AuthLib where
  compare := fun plain hash => plain.toList.isSuffixOf hash.toList
  expires := authLib.expires

/-! ## What a registration does -/

/-- How far a registration has come. -/
inductive Applied where
  | start
  | hashed (passwordHash : String)
  | created (u : User)

structure Applicant where
  req : Option RegisterBody
  applied : Applied

namespace Applicant

def after : (o : AccountOp) → Except Err o.Ret → Applied → Applied
  | .bcryptHash _, .ok h, _ => .hashed h
  | .userCreate .., .ok (some u), _ => .created u
  | _, _, s => s

def post (e : Event ⟨AccountOp, AccountOp.Ret⟩ Err) (l : Applicant) : Applicant :=
  { l with applied := after e.op e.out l.applied }

/-- The account is made of the body, with the hash of its password. -/
def ready (l : Applicant) : AccountOp → Prop
  | .userFindOne _ => True
  | .bcryptHash plain => ∃ body, l.req = some body ∧ plain = body.password
  | .userCreate email name h => ∃ body, l.req = some body ∧ email = body.email ∧
      name = body.name ∧ l.applied = .hashed h

/-- Whoever is answered has made the account. -/
def Answered (out : Except Err UserView) (l : Applicant) : Prop :=
  ∀ v, out = .ok v →
    ∃ u, l.applied = .created u ∧ v = ⟨u.id.toString, u.email, u.name, u.role⟩

theorem follows_register (r : Option RegisterBody) :
    Follows ready post (register r) ⟨r, .start⟩ Answered := by
  cases r with
  | none => exact fun v he => by cases he
  | some body =>
    refine follows_bind.mpr (follows_op.mpr ⟨trivial, fun _ out => ?_⟩)
    rcases out with e | (_ | u)
    · exact fun v he => by cases he
    · refine follows_bind.mpr (follows_op.mpr ⟨⟨body, rfl, rfl⟩, fun _ out => ?_⟩)
      cases out with
      | error e => exact fun v he => by cases he
      | ok h =>
        refine follows_bind.mpr (follows_op.mpr ⟨⟨body, rfl, rfl, rfl, rfl⟩, fun _ out => ?_⟩)
        rcases out with e | (_ | u)
        · exact fun v he => by cases he
        · exact fun v he => by cases he
        · exact fun v he => ⟨u, rfl, (Except.ok.inj he).symm⟩
    · exact fun v he => by cases he

end Applicant

def applicant (t : AccountThread) : Applicant := t.account Applicant.post fun _ r => ⟨r, .start⟩

theorem applicant_req (t : AccountThread) : (applicant t).req = t.req := by
  obtain ⟨id, r, p, tr⟩ := t
  induction tr with
  | nil => rfl
  | cons e tr ih => exact ih

/-! ## The accounts of a run -/

/-- What nobody changes of a user. -/
structure Account where
  id : ObjectId
  email : String
  name : String
  passwordHash : String
  deriving DecidableEq

def User.account (u : User) : Account := ⟨u.id, u.email, u.name, u.passwordHash⟩

theorem account_edit (e : UserEdit) (u : User) : (e.apply u).account = u.account := by
  cases e with
  | setActive id active => rw [UserEdit.apply]; split <;> rfl
  | setRole id role => rw [UserEdit.apply]; split <;> rfl

def accountsOf (users : List User) : List Account := users.map User.account

theorem accounts_edit (e : UserEdit) (users : List User) :
    accountsOf (users.map e.apply) = accountsOf users := by
  rw [accountsOf, List.map_map]
  exact List.map_congr_left fun u _ => account_edit e u

theorem accounts_append (users : List User) (u : User) :
    accountsOf (users ++ [u]) = accountsOf users ++ [u.account] := List.map_append

theorem emails_eq (users : List User) :
    users.map (·.email) = (accountsOf users).map (·.email) := by
  rw [accountsOf, List.map_map]
  rfl

/-- The registration makes the account, with some salt. -/
def RegisterBody.Makes (hash : String → String → String) (body : RegisterBody) (a : Account) :
    Prop :=
  a.email = emailOf body.email ∧ a.name = trim body.name ∧
    ∃ salt, a.passwordHash = hash body.password salt

/-- What is known of a registration when the accounts are `as`, of which `old` were there before. -/
def Applicant.Good (hash : String → String → String) (old as : List Account) (l : Applicant) :
    Prop :=
  match l.applied with
  | .start => True
  | .hashed h => ∀ body, l.req = some body → ∃ salt, h = hash body.password salt
  | .created u => u.role = .buyer ∧ u.account ∈ as ∧ u.email ∉ old.map (·.email) ∧
      ∃ body, l.req = some body ∧ body.Makes hash u.account

section Call

variable {hash : String → String → String} {now i : Nat} {op : AccountOp} {f : Fate Err String}
  {w w' : List User} {out : Except Err op.Ret} {l : Applicant} {old as as' : List Account}

theorem Applicant.Good.mono (h : l.Good hash old as) (hsub : as ⊆ as') : l.Good hash old as' := by
  obtain ⟨r, _ | hash | u⟩ := l
  · trivial
  · exact h
  · exact ⟨h.1, hsub h.2.1, h.2.2⟩

theorem Applicant.after_error {e : Err} {s : Applied} : after op (.error e) s = s := by
  cases op <;> rfl

theorem store_other {s : String} {x : op.Ret}
    (hop : ∀ email name passwordHash, op ≠ .userCreate email name passwordHash)
    (h : accountStore hash now i op s w = some (x, w')) : w' = w := by
  cases op with
  | userCreate email name passwordHash => exact absurd rfl (hop _ _ _)
  | _ => cases h; rfl

theorem store_create {s email name passwordHash : String} {x : Option User}
    (h : accountStore hash now i (.userCreate email name passwordHash) s w = some (x, w')) :
    (x = none ∧ w' = w) ∨ ∃ u, x = some u ∧ w' = w ++ [u] ∧
      u.email ∉ (accountsOf w).map (·.email) ∧ u.role = .buyer ∧ u.email = emailOf email ∧
      u.name = trim name ∧ u.passwordHash = passwordHash := by
  simp only [accountStore] at h
  split at h
  · cases h
    exact .inl ⟨rfl, rfl⟩
  · rename_i hfree
    simp only [not_or] at hfree
    obtain ⟨o, -, h⟩ := Option.bind_eq_some_iff.mp h
    split at h
    · cases h
    · cases h
      exact .inr ⟨_, rfl, rfl, emails_eq w ▸ hfree.2.2.2, rfl, rfl, rfl, rfl⟩

/-- What a call of a registration makes of the users, and what is known of the registration then. -/
theorem register_call (hready : l.ready op) (hgood : l.Good hash old (accountsOf w))
    (hold : old ⊆ accountsOf w) (hx : (accountStore hash).exec now i op f w = some (out, w')) :
    (l.post ⟨now, op, out⟩).Good hash old (accountsOf w') ∧
      ((w' = w ∧ ∀ u, Applicant.after op out l.applied = .created u → l.applied = .created u) ∨
        ∃ u body, w' = w ++ [u] ∧ u.email ∉ (accountsOf w).map (·.email) ∧ u.role = .buyer ∧
          l.req = some body ∧ body.Makes hash u.account ∧
          ∀ u', Applicant.after op out l.applied = .created u' → u' = u) := by
  have hsame : ∀ {w'}, w' = w → Applicant.after op out l.applied = l.applied →
      (l.post ⟨now, op, out⟩).Good hash old (accountsOf w') := by
    rintro _ rfl happlied
    rw [Applicant.post, happlied]
    exact hgood
  rcases Store.exec_effect hx with ⟨-, s, x, hs, hout⟩ | ⟨-, rfl, e, rfl⟩
  · cases op with
    | userFindOne email =>
      obtain rfl := store_other (fun _ _ _ he => by cases he) hs
      have happlied : Applicant.after (.userFindOne email) out l.applied = l.applied := by
        cases out <;> rfl
      exact ⟨hsame rfl happlied, .inl ⟨rfl, fun u hu => happlied ▸ hu⟩⟩
    | bcryptHash plain =>
      obtain rfl := store_other (fun _ _ _ he => by cases he) hs
      cases out with
      | error e => exact ⟨hsame rfl rfl, .inl ⟨rfl, fun u hu => hu⟩⟩
      | ok h =>
        obtain rfl := hout h rfl
        obtain ⟨body, hreq, rfl⟩ := hready
        refine ⟨fun body' hreq' => ?_, .inl ⟨rfl, fun u hu => by cases hu⟩⟩
        obtain rfl := Option.some.inj (hreq.symm.trans hreq')
        exact ⟨s, (Prod.mk.inj (Option.some.inj hs)).1.symm⟩
    | userCreate email name passwordHash =>
      obtain ⟨body, hreq, rfl, rfl, happlied⟩ := hready
      have hhash : ∃ salt, passwordHash = hash body.password salt := by
        rw [Applicant.Good, happlied] at hgood
        exact hgood body hreq
      rcases store_create hs with ⟨rfl, rfl⟩ | ⟨u, rfl, rfl, hfree, hrole, hemail, hname, rfl⟩
      · have hnone : Applicant.after (.userCreate body.email body.name passwordHash) out l.applied =
            l.applied := by
          cases out with
          | error e => rfl
          | ok x => rw [hout x rfl]; rfl
        exact ⟨hsame rfl hnone, .inl ⟨rfl, fun u hu => hnone ▸ hu⟩⟩
      · have hmakes : body.Makes hash u.account := ⟨hemail, hname, hhash⟩
        cases out with
        | error e =>
          refine ⟨?_, .inr ⟨u, body, rfl, hfree, hrole, hreq, hmakes, fun u' hu => ?_⟩⟩
          · rw [accounts_append]
            exact hgood.mono (List.subset_append_left _ _)
          · have hu : l.applied = .created u' := hu
            rw [happlied] at hu
            cases hu
        | ok x =>
          obtain rfl := hout x rfl
          refine ⟨⟨hrole, ?_, ?_, body, hreq, hmakes⟩,
            .inr ⟨u, body, rfl, hfree, hrole, hreq, hmakes, fun u' hu => ?_⟩⟩
          · rw [accounts_append]
            exact List.mem_append_right _ (List.mem_singleton_self _)
          · exact fun hmem => hfree (List.map_subset _ hold hmem)
          · exact (Applied.created.inj hu).symm
  · have happlied : Applicant.after op (.error e) l.applied = l.applied := Applicant.after_error
    exact ⟨hsame rfl happlied, .inl ⟨rfl, fun u hu => happlied ▸ hu⟩⟩

end Call

/-- What holds of the registrations and the users of every run that starts with `users`. -/
structure Registers (hash : String → String → String) (users : List User) (c : AccountConfig) :
    Prop where
  good : ∀ t ∈ c.pool, (applicant t).Good hash (accountsOf users) (accountsOf c.world)
  kept : accountsOf users <+: accountsOf c.world
  emails : ((accountsOf c.world).map (·.email)).Nodup
  origin : ∀ a ∈ accountsOf c.world, a ∈ accountsOf users ∨
    ∃ t ∈ c.pool, ∃ body, t.req = some body ∧ body.Makes hash a
  apart : ∀ (i j : Nat) t t' u u', i ≠ j → c.pool[i]? = some t → c.pool[j]? = some t' →
    (applicant t).applied = .created u → (applicant t').applied = .created u' → u.email ≠ u'.email

section Runs

variable {hash : String → String → String}
  {ok : System.Guard ⟨AccountOp, AccountOp.Ret⟩ Err (Option RegisterBody) UserView (List User)
    String UserEdit}
  {users : List User} {n : Nat} {c c' : AccountConfig}

/-- Nothing has happened to the accounts or to a registration. -/
theorem Registers.congr (h : Registers hash users c)
    (hworld : accountsOf c'.world = accountsOf c.world)
    (hpool : c'.pool = c.pool) : Registers hash users c' := by
  constructor
  · rw [hworld, hpool]; exact h.good
  · rw [hworld]; exact h.kept
  · rw [hworld]; exact h.emails
  · rw [hworld, hpool]; exact h.origin
  · rw [hpool]; exact h.apart

theorem Registers.arrive (h : Registers hash users c) (t : AccountThread)
    (ht : (applicant t).applied = .start) :
    Registers hash users { c with pool := c.pool ++ [t] } := by
  refine ⟨fun t' ht' => ?_, h.kept, h.emails, fun a ha => ?_, ?_⟩
  · rcases List.mem_append.mp ht' with ht' | ht'
    · exact h.good t' ht'
    · rw [List.mem_singleton.mp ht', Applicant.Good, ht]
      trivial
  · rcases h.origin a ha with hold | ⟨t', ht', hrest⟩
    · exact .inl hold
    · exact .inr ⟨t', List.mem_append_left _ ht', hrest⟩
  · -- who has created an account was there before
    have hbefore : ∀ {i : Nat} {t' u}, (c.pool ++ [t])[i]? = some t' →
        (applicant t').applied = .created u → c.pool[i]? = some t' := by
      intro i t' u hi hu
      rw [List.getElem?_append] at hi
      split at hi
      · exact hi
      · have hnew := List.mem_of_getElem? hi
        rw [List.mem_singleton.mp hnew, ht] at hu
        cases hu
    intro i j t₁ t₂ u₁ u₂ hij h₁ h₂ hu₁ hu₂
    exact h.apart i j t₁ t₂ u₁ u₂ hij (hbefore h₁ hu₁) (hbefore h₂ hu₂) hu₁ hu₂

theorem Registers.call (h : Registers hash users c) {i : Nat} {id : Nat} {r : Option RegisterBody}
    {op : AccountOp} {k : Except Err op.Ret → AccountProg UserView}
    {tr : List (Event ⟨AccountOp, AccountOp.Ret⟩ Err)} {f : Fate Err String}
    {out : Except Err op.Ret} {w : List User} (hp : c.pool[i]? = some ⟨id, r, .call op k, tr⟩)
    (hready : (applicant ⟨id, r, .call op k, tr⟩).ready op)
    (hx : (accountStore hash).exec c.now id op f c.world = some (out, w)) :
    Registers hash users { c with
      world := w, pool := c.pool.set i ⟨id, r, k out, ⟨c.now, op, out⟩ :: tr⟩ } := by
  have hmem := List.mem_of_getElem? hp
  have hlt := (List.getElem?_eq_some_iff.mp hp).1
  obtain ⟨hgood, hmade⟩ := register_call hready (h.good _ hmem) h.kept.subset hx
  have hreq : r = (applicant ⟨id, r, .call op k, tr⟩).req :=
    (applicant_req ⟨id, r, .call op k, tr⟩).symm
  have hgrown : accountsOf c.world <+: accountsOf w := by
    rcases hmade with ⟨rfl, -⟩ | ⟨u, body, rfl, -⟩
    · exact List.prefix_rfl
    · rw [accounts_append]
      exact List.prefix_append _ _
  -- whoever had made an account has made it still
  have hothers : ∀ t ∈ c.pool, ∃ t' ∈ c.pool.set i ⟨id, r, k out, ⟨c.now, op, out⟩ :: tr⟩,
      t'.req = t.req := by
    intro t ht
    obtain ⟨j, hj⟩ := List.getElem?_of_mem ht
    by_cases hij : i = j
    · subst hij
      obtain rfl := Option.some.inj (hp.symm.trans hj)
      exact ⟨_, List.mem_of_getElem? (List.getElem?_set_self hlt), rfl⟩
    · exact ⟨t, List.mem_of_getElem? (by rw [List.getElem?_set_ne hij, hj]), rfl⟩
  have hcaller : ∀ (j : Nat) t u u', i ≠ j → c.pool[j]? = some t →
      (applicant ⟨id, r, k out, ⟨c.now, op, out⟩ :: tr⟩).applied = .created u →
      (applicant t).applied = .created u' → u.email ≠ u'.email := by
    intro j t u u' hij hj hu hu'
    rcases hmade with ⟨-, hbefore⟩ | ⟨v, body, -, hfree, -, -, -, hnew⟩
    · exact h.apart i j _ t u u' hij hp hj (hbefore u hu) hu'
    · obtain rfl := hnew u hu
      have hmade' := h.good t (List.mem_of_getElem? hj)
      rw [Applicant.Good, hu'] at hmade'
      exact fun he => hfree (he ▸ List.mem_map_of_mem (f := Account.email) hmade'.2.1)
  refine ⟨fun t ht => ?_, h.kept.trans hgrown, ?_, fun a ha => ?_, ?_⟩
  · rcases List.mem_or_eq_of_mem_set ht with ht | rfl
    · exact (h.good t ht).mono hgrown.subset
    · exact hgood
  · rcases hmade with ⟨rfl, -⟩ | ⟨u, body, rfl, hfree, -⟩
    · exact h.emails
    · rw [accounts_append, List.map_append]
      refine h.emails.append (List.nodup_singleton _) ?_
      rintro e he hnew
      rw [List.mem_singleton.mp hnew] at he
      exact hfree he
  · have hold : a ∈ accountsOf c.world → a ∈ accountsOf users ∨ ∃ t ∈ c.pool.set i
        ⟨id, r, k out, ⟨c.now, op, out⟩ :: tr⟩, ∃ body, t.req = some body ∧ body.Makes hash a := by
      intro ha
      rcases h.origin a ha with hstart | ⟨t, ht, body, hbody, hmakes⟩
      · exact .inl hstart
      · obtain ⟨t', ht', hreq'⟩ := hothers t ht
        exact .inr ⟨t', ht', body, hreq'.trans hbody, hmakes⟩
    rcases hmade with ⟨rfl, -⟩ | ⟨u, body, rfl, -, -, hbody, hmakes, -⟩
    · exact hold ha
    · rcases List.mem_append.mp (accounts_append _ _ ▸ ha) with ha | ha
      · exact hold ha
      · rw [List.mem_singleton.mp ha]
        exact .inr ⟨_, List.mem_of_getElem? (List.getElem?_set_self hlt), body,
          hreq.trans hbody, hmakes⟩
  · intro j m t t' u u' hjm hj hm hu hu'
    by_cases hij : i = j
    · subst hij
      rw [List.getElem?_set_self hlt] at hj
      rw [List.getElem?_set_ne hjm] at hm
      cases hj
      exact hcaller m t' u u' hjm hm hu hu'
    · rw [List.getElem?_set_ne hij] at hj
      by_cases him : i = m
      · subst him
        rw [List.getElem?_set_self hlt] at hm
        cases hm
        exact fun he => hcaller j t u' u hij hj hu' hu he.symm
      · rw [List.getElem?_set_ne him] at hm
        exact h.apart j m t t' u u' hjm hj hm hu hu'

theorem registers_reachable (h : (accountSystem hash).Reachable ok (freshAccounts n users) c)
    (hstart : (users.map (·.email)).Nodup) : Registers hash users c := by
  refine h.invariant (I := Registers hash users) ?_ ?_
  · refine ⟨fun t ht => (by cases ht), List.prefix_rfl, emails_eq users ▸ hstart, fun a => .inl, ?_⟩
    intro i j t t' u u' _ hi
    cases hi
  · intro c a c' hr ih _ hs
    cases a with
    | arrive r => cases hs; exact ih.arrive _ rfl
    | call i f =>
      obtain ⟨id, r, op, k, tr, out, w, hp, hx, rfl⟩ := System.callStep_eq_some hs
      have hfollows : Follows Applicant.ready Applicant.post (.call op k)
          (applicant ⟨id, r, .call op k, tr⟩) Applicant.Answered :=
        hr.follows rfl (fun _ r => Applicant.follows_register r) _ (List.mem_of_getElem? hp)
      exact (ih.call hp hfollows.1 hx).congr rfl rfl
    | tick d => cases hs; exact ih.congr rfl rfl
    | env e => cases hs; exact ih.congr (accounts_edit e _) rfl

theorem trim_spaceless {s : String} (h : ∀ c ∈ s.toList, isSpace c = false) : trim s = s := by
  have hnone : ∀ l : List Char, (∀ c ∈ l, isSpace c = false) → l.dropWhile isSpace = l := by
    intro l hl
    cases l with
    | nil => rfl
    | cons c l => exact List.dropWhile_cons_of_neg (by simp [hl c List.mem_cons_self])
  rw [trim, hnone _ h, hnone _ fun c hc => h c (List.mem_reverse.mp hc), List.reverse_reverse,
    String.ofList_toList]

theorem emailOf_body (body : RegisterBody) : emailOf body.email = lower body.email := by
  rw [emailOf, trim_spaceless body.spaceless]

/-- Whoever is answered has made an account. -/
theorem created_of_answer (h : (accountSystem hash).Reachable ok (freshAccounts n users) c)
    {t : AccountThread} (ht : t ∈ c.pool) {v : UserView} (hv : t.prog.result = some (.ok v)) :
    ∃ u, (applicant t).applied = .created u ∧ v = ⟨u.id.toString, u.email, u.name, u.role⟩ := by
  have hfollows : Follows Applicant.ready Applicant.post t.prog (applicant t) Applicant.Answered :=
    h.follows rfl (fun _ r => Applicant.follows_register r) t ht
  cases hp : t.prog with
  | ret v' =>
    rw [hp] at hv hfollows
    cases hv
    exact hfollows v rfl
  | throw e => rw [hp] at hv; cases hv
  | call op k => rw [hp] at hv; cases hv

/-- **One account an email.** In every run, whatever fails, and however many registrations go on at
once: no two users have one email, a registration that is answered has made the buyer's account that
the answer names, with the email in lower case and the hash of its password, of an email that was
free; and no two are answered with one email. -/
theorem registered (h : (accountSystem hash).Reachable ok (freshAccounts n users) c)
    (hstart : (users.map (·.email)).Nodup) :
    (c.world.map (·.email)).Nodup ∧
    (∀ t ∈ c.pool, ∀ v, t.prog.result = some (.ok v) →
      v.role = .buyer ∧ v.email ∉ users.map (·.email) ∧
      ∃ u ∈ c.world, ∃ body salt, t.req = some body ∧ u.id.toString = v.id ∧ u.email = v.email ∧
        u.name = v.name ∧ v.email = lower body.email ∧ v.name = trim body.name ∧
        u.passwordHash = hash body.password salt) ∧
    ∀ (i j : Nat) t t' v v', i ≠ j → c.pool[i]? = some t → c.pool[j]? = some t' →
      t.prog.result = some (.ok v) → t'.prog.result = some (.ok v') → v.email ≠ v'.email := by
  have hregisters := registers_reachable h hstart
  refine ⟨emails_eq c.world ▸ hregisters.emails, fun t ht v hv => ?_, ?_⟩
  · obtain ⟨u, hu, rfl⟩ := created_of_answer h ht hv
    have hgood := hregisters.good t ht
    rw [Applicant.Good, hu] at hgood
    obtain ⟨hrole, hmem, hfree, body, hbody, hemail, hname, salt, hsalt⟩ := hgood
    obtain ⟨u', hu', heq⟩ := List.mem_map.mp hmem
    refine ⟨hrole, emails_eq users ▸ hfree, u', hu', body, salt, (applicant_req t).symm.trans hbody,
      congrArg (ObjectId.toString ∘ Account.id) heq, congrArg Account.email heq,
      congrArg Account.name heq, hemail.trans (emailOf_body body), hname, ?_⟩
    exact (congrArg Account.passwordHash heq).trans hsalt
  · intro i j t t' v v' hij hi hj hv hv'
    obtain ⟨u, hu, rfl⟩ := created_of_answer h (List.mem_of_getElem? hi) hv
    obtain ⟨u', hu', rfl⟩ := created_of_answer h (List.mem_of_getElem? hj) hv'
    exact hregisters.apart i j t t' u u' hij hi hj hu hu'

end Runs

/-- Two requests find the email free. -/
def raceOfB : List AccountAct :=
  [.arrive (some bodyB), .arrive (some bodyB), .call 0 (.answered ""), .call 1 (.answered ""),
    .call 0 (.answered "salt"), .call 1 (.answered "tlas"),
    .call 0 (.answered "89abcdef0123456789abcdef"), .call 1 (.answered "89abcdef0123456789abcdee")]

theorem registered_race : ∃ c, (accountSystem saltedHash).Reachable (fun _ _ => True)
      (freshAccounts 0 [userA]) c ∧
    c.pool.map (fun t => (t.prog.result.bind Except.toOption).map UserView.email) =
      [some "b@test.local", none] ∧ (c.world.map (·.email)).Nodup := by
  have hrun : ((accountSystem saltedHash).run (fun _ _ => true) (freshAccounts 0 [userA])
      raceOfB).map (fun c => c.pool.map fun t =>
        (t.prog.result.bind Except.toOption).map UserView.email) =
      some [some "b@test.local", none] := by decide
  obtain ⟨c, hc, hs⟩ := Option.map_eq_some_iff.mp hrun
  have hr : (accountSystem saltedHash).Reachable (fun _ _ => True) (freshAccounts 0 [userA]) c :=
    (System.Reachable.of_run hc).mono fun _ _ _ => trivial
  exact ⟨c, hr, hs, (registered hr (by decide)).1⟩

/-! ## Registrations and sessions -/

/-- The registrations and the other auth routes, on one collection of users: what becomes of it in
`accounts` is what `auth` finds. -/
structure Portal where
  auth : AuthConfig
  accounts : AccountConfig

inductive PortalAct where
  | auth (a : AuthAct)
  | account (a : AccountAct)
  | tick (d : Nat)

/-- A request arrives or makes a call. -/
def servesRequest {Req P Env : Type} : Act Err Req P Env → Bool
  | .arrive _ | .call .. => true
  | _ => false

def atOnce {Req P Env : Type} : Act Err Req P Env → Bool
  | .tick _ => false
  | _ => true

namespace Portal

def step (env : AuthEnv) (lib : AuthLib) (hash : String → String → String) (p : Portal) :
    PortalAct → Option Portal
  | .auth a =>
    if servesRequest a then
      ((authSystem env lib).step p.auth a).map fun auth => { p with auth := auth }
    else none
  | .account a =>
    if atOnce a then
      ((accountSystem hash).step p.accounts a).bind fun accounts =>
        ((authSystem env lib).step p.auth (.env accounts.world)).map fun auth => ⟨auth, accounts⟩
    else none
  | .tick d =>
    ((accountSystem hash).step p.accounts (.tick d)).bind fun accounts =>
      ((authSystem env lib).step p.auth (.tick d)).map fun auth => ⟨auth, accounts⟩

def run (env : AuthEnv) (lib : AuthLib) (hash : String → String → String)
    (ok : Portal → PortalAct → Bool) (p : Portal) (as : List PortalAct) : Option Portal :=
  script (step env lib hash) ok p as

end Portal

def freshPortal (now : Nat) : Portal := ⟨freshAuth now [], freshAccounts now []⟩

/-- Nobody is given a role by hand. -/
def unprivileged (_ : Portal) : PortalAct → Bool
  | .account (.env (.setRole ..)) => false
  | _ => true

/-- What a step is for the two parts: the users are changed by registrations and by hand. -/
inductive PortalDoes (env : AuthEnv) (lib : AuthLib) (hash : String → String → String)
    (p : Portal) : PortalAct → Portal → Prop
  | auth {a : AuthAct} {auth : AuthConfig} : servesRequest a = true →
      (authSystem env lib).step p.auth a = some auth →
      PortalDoes env lib hash p (.auth a) { p with auth := auth }
  | account {a : AccountAct} {accounts : AccountConfig} {auth : AuthConfig} :
      (accountSystem hash).step p.accounts a = some accounts →
      (authSystem env lib).step p.auth (.env accounts.world) = some auth →
      PortalDoes env lib hash p (.account a) ⟨auth, accounts⟩
  | tick {d : Nat} {accounts : AccountConfig} {auth : AuthConfig} :
      (accountSystem hash).step p.accounts (.tick d) = some accounts →
      (authSystem env lib).step p.auth (.tick d) = some auth →
      PortalDoes env lib hash p (.tick d) ⟨auth, accounts⟩

section Portal

variable {env : AuthEnv} {lib : AuthLib} {hash : String → String → String}
  {ok : Portal → PortalAct → Bool} {p p' : Portal} {a : PortalAct} {as : List PortalAct} {n : Nat}

theorem portalDoes (h : p.step env lib hash a = some p') : PortalDoes env lib hash p a p' := by
  cases a with
  | auth a =>
    simp only [Portal.step] at h
    split at h
    · rename_i hserves
      obtain ⟨auth, hauth, rfl⟩ := Option.map_eq_some_iff.mp h
      exact .auth hserves hauth
    · cases h
  | account a =>
    simp only [Portal.step] at h
    split at h
    · obtain ⟨accounts, haccounts, h⟩ := Option.bind_eq_some_iff.mp h
      obtain ⟨auth, hauth, rfl⟩ := Option.map_eq_some_iff.mp h
      exact .account haccounts hauth
    · cases h
  | tick d =>
    simp only [Portal.step] at h
    obtain ⟨accounts, haccounts, h⟩ := Option.bind_eq_some_iff.mp h
    obtain ⟨auth, hauth, rfl⟩ := Option.map_eq_some_iff.mp h
    exact .tick haccounts hauth

/-- The calls of the other routes leave the users alone. -/
theorem users_step {c c' : AuthConfig} {a : AuthAct} (ha : servesRequest a = true)
    (h : (authSystem env lib).step c a = some c') : c'.world.2.users = c.world.2.users := by
  cases a with
  | arrive r => cases h; rfl
  | call i f =>
    obtain ⟨id, r, o, k, tr, out, w, -, hx, rfl⟩ := System.callStep_eq_some h
    cases o with
    | inl k => exact congrArg AuthDb.users (Store.exec_sum_inl (f := kvStore) hx).2
    | inr o =>
      rcases Store.exec_effect (Store.exec_sum_inr (g := authDbStore lib) hx).1 with
        ⟨-, s, x, hx, -⟩ | ⟨-, hdb, -⟩
      · exact (signed_store hx).1
      · exact congrArg AuthDb.users hdb
  | tick d => cases ha
  | env e => cases ha

/-- What a step makes of the users. -/
theorem world_step {c c' : AccountConfig} {a : AccountAct}
    (h : (accountSystem hash).Reachable (fun _ _ => True) (freshAccounts n []) c)
    (hs : (accountSystem hash).step c a = some c') :
    c'.world = c.world ∨ (∃ u, c'.world = c.world ++ [u] ∧ u.role = .buyer) ∨
      ∃ e, a = .env e ∧ c'.world = c.world.map e.apply := by
  cases a with
  | arrive r => cases hs; exact .inl rfl
  | call i f =>
    obtain ⟨id, r, op, k, tr, out, w, hp, hx, rfl⟩ := System.callStep_eq_some hs
    have hmem := List.mem_of_getElem? hp
    have hfollows : Follows Applicant.ready Applicant.post (.call op k)
        (applicant ⟨id, r, .call op k, tr⟩) Applicant.Answered :=
      h.follows rfl (fun _ r => Applicant.follows_register r) _ hmem
    have hregisters := registers_reachable h List.nodup_nil
    obtain ⟨-, ⟨rfl, -⟩ | ⟨u, body, rfl, -, hrole, -⟩⟩ :=
      register_call hfollows.1 (hregisters.good _ hmem) hregisters.kept.subset hx
    · exact .inl rfl
    · exact .inr (.inl ⟨u, rfl, hrole⟩)
  | tick d => cases hs; exact .inl rfl
  | env e => cases hs; exact .inr (.inr ⟨e, rfl, rfl⟩)

def AllBuyers (users : List User) : Prop := ∀ u ∈ users, u.role = .buyer

theorem accounts_step {c c' : AccountConfig} {a : AccountAct} {p : Portal}
    (h : (accountSystem hash).Reachable (fun _ _ => True) (freshAccounts n []) c)
    (hok : unprivileged p (.account a) = true) (hs : (accountSystem hash).step c a = some c')
    (hbuyers : AllBuyers c.world) :
    accountsOf c.world ⊆ accountsOf c'.world ∧ AllBuyers c'.world := by
  rcases world_step h hs with hworld | ⟨u, hworld, hrole⟩ | ⟨e, rfl, hworld⟩
  · rw [hworld]
    exact ⟨List.Subset.refl _, hbuyers⟩
  · rw [hworld, accounts_append]
    refine ⟨List.subset_append_left _ _, fun u' hu' => ?_⟩
    rcases List.mem_append.mp hu' with hu' | hu'
    · exact hbuyers u' hu'
    · exact List.mem_singleton.mp hu' ▸ hrole
  · rw [hworld, accounts_edit]
    refine ⟨List.Subset.refl _, fun u' hu' => ?_⟩
    obtain ⟨u, hu, rfl⟩ := List.mem_map.mp hu'
    cases e with
    | setActive id active =>
      rw [UserEdit.apply]
      split
      · exact hbuyers u hu
      · exact hbuyers u hu
    | setRole id role => cases hok

/-- Whoever the other routes have found at any moment is a buyer with an account. -/
structure Enrolled (env : AuthEnv) (lib : AuthLib) (hash : String → String → String) (n : Nat)
    (p : Portal) : Prop where
  users : p.auth.world.2.users = p.accounts.world
  registrations : (accountSystem hash).Reachable (fun _ _ => True) (freshAccounts n []) p.accounts
  buyers : AllBuyers p.accounts.world
  sessions : ∃ as, (authSystem env lib).run (fun _ _ => true) (freshAuth n []) as = some p.auth ∧
    ∀ c, (authSystem env lib).Moment (fun _ _ => true) (freshAuth n []) as c →
      accountsOf c.world.2.users ⊆ accountsOf p.accounts.world ∧ AllBuyers c.world.2.users

/-- A step of the sessions that finds the users as they are then. -/
theorem Enrolled.next {auth : AuthConfig} {accounts : AccountConfig} {b : AuthAct}
    (h : Enrolled env lib hash n p) (hs : (authSystem env lib).step p.auth b = some auth)
    (hreach : (accountSystem hash).Reachable (fun _ _ => True) (freshAccounts n []) accounts)
    (husers : auth.world.2.users = accounts.world)
    (hkept : accountsOf p.accounts.world ⊆ accountsOf accounts.world)
    (hbuyers : AllBuyers accounts.world) : Enrolled env lib hash n ⟨auth, accounts⟩ := by
  obtain ⟨as, hrun, hmoments⟩ := h.sessions
  have hlast := System.run_concat.mpr ⟨_, hrun, rfl, hs⟩
  refine ⟨husers, hreach, hbuyers, as ++ [b], hlast, ?_⟩
  rintro c ⟨bs, hprefix, hbs⟩
  rcases List.prefix_concat_iff.mp hprefix with rfl | hprefix
  · obtain rfl := Option.some.inj (hbs.symm.trans hlast)
    rw [husers]
    exact ⟨List.Subset.refl _, hbuyers⟩
  · obtain ⟨hsub, hrole⟩ := hmoments c ⟨bs, hprefix, hbs⟩
    exact ⟨List.Subset.trans hsub hkept, hrole⟩

theorem enrolled_run (h : (freshPortal n).run env lib hash unprivileged as = some p) :
    Enrolled env lib hash n p := by
  refine script_induction (I := fun _ p => Enrolled env lib hash n p) h ?_ ?_
  · refine ⟨rfl, .init, fun u hu => (by cases hu), [], rfl, ?_⟩
    rintro c ⟨bs, hprefix, hbs⟩
    obtain rfl := List.prefix_nil.mp hprefix
    obtain rfl := Option.some.inj hbs
    exact ⟨List.Subset.refl _, fun u hu => by cases hu⟩
  · intro as p a p' _ ih hok hs
    cases portalDoes hs with
    | auth hserves hauth =>
      exact ih.next hauth ih.registrations ((users_step hserves hauth).trans ih.users)
        (List.Subset.refl _) ih.buyers
    | account haccounts hauth =>
      obtain ⟨hkept, hbuyers⟩ := accounts_step ih.registrations hok haccounts ih.buyers
      refine ih.next hauth (.step ih.registrations trivial haccounts) ?_ hkept hbuyers
      cases hauth
      rfl
    | tick haccounts hauth =>
      have hreach := ih.registrations.step trivial haccounts
      cases haccounts
      refine ih.next hauth hreach ?_ (List.Subset.refl _) ih.buyers
      cases hauth
      exact ih.users

/-- **Whoever is let through has registered.** In every run that starts with no users, and in which
nobody is given a role by hand, the bearer of an accepted token is a buyer whose account a
registration has made, and has logged in with a password that passes for the one that was
registered. -/
theorem let_in_registered {i : Nat} {authorization : Option String} {sub : String} {role : Role}
    {w' : AuthWorld} (h : (freshPortal n).run env lib hash unprivileged as = some p)
    (hx : Exec (authStore lib) p.auth.now i (requireAuth authorization) p.auth.world
      (.ok (sub, role)) w') :
    role = .buyer ∧ ∃ u ∈ p.accounts.world, u.id.toString = sub ∧
      ∃ t ∈ p.accounts.pool, ∃ body salt, t.req = some body ∧ u.email = lower body.email ∧
        u.passwordHash = hash body.password salt ∧
        ∃ t' ∈ p.auth.pool, ∃ email password, t'.req = .login (some ⟨email, password⟩) ∧
          lower email = lower body.email ∧
          lib.compare password (hash body.password salt) = true := by
  obtain ⟨-, hreach, -, as', hrun, hmoments⟩ := enrolled_run h
  obtain ⟨d, hd, hpayload, -⟩ := exec_requireAuth hx
  have hbacked := (backed_run hrun).2 d hd
  rw [SignedToken.Backed, hpayload] at hbacked
  obtain ⟨⟨t', ht', email, password, u', seen', hlogin, ⟨c', hmoment', -, hu', -⟩, hemail',
    hcompare, hid⟩, u, seen, -, ⟨c, hmoment, -, hu, -⟩, -, hrole, -⟩ := hbacked
  refine ⟨hrole.symm.trans ((hmoments c hmoment).2 u hu), ?_⟩
  -- the user that logged in still has its account, which is a registration's
  have hmem := (hmoments c' hmoment').1 (List.mem_map_of_mem (f := User.account) hu')
  obtain ⟨v, hv, hsame⟩ := List.mem_map.mp hmem
  have hvid : v.id = u'.id := congrArg Account.id hsame
  have hvemail : v.email = u'.email := congrArg Account.email hsame
  have hvhash : v.passwordHash = u'.passwordHash := congrArg Account.passwordHash hsame
  rcases (registers_reachable hreach List.nodup_nil).origin _ hmem with
    hold | ⟨t, ht, body, hbody, hemail, -, salt, hsalt⟩
  · cases hold
  · have hmade : u'.email = lower body.email := hemail.trans (emailOf_body body)
    have hhash : u'.passwordHash = hash body.password salt := hsalt
    exact ⟨v, hv, (congrArg ObjectId.toString hvid).trans hid, t, ht, body, salt, hbody,
      hvemail.trans hmade, hvhash.trans hhash, t', ht', email, password, hlogin,
      hemail'.symm.trans hmade, hhash ▸ hcompare⟩

end Portal

/-- A registration, and then a login. -/
def registeredB : List PortalAct :=
  .account (.arrive (some bodyB)) ::
    ["", "salt", "89abcdef0123456789abcdef"].map fun s => .account (.call 0 (.answered s))

def loggedInB : List PortalAct :=
  .auth (.arrive (.login (some ⟨"B@test.local", "password2"⟩))) ::
    ["", "", "fam", "at", "jti0", "rt0", ""].map fun s => .auth (.call 0 (.answered s))

theorem let_in_registered_session : ∃ p i w',
    (freshPortal 0).run envVars saltedLib saltedHash unprivileged (registeredB ++ loggedInB) =
      some p ∧
    Exec (authStore saltedLib) p.auth.now i (requireAuth (some "at")) p.auth.world
      (.ok ("89abcdef0123456789abcdef", .buyer)) w' ∧
    ∃ u ∈ p.accounts.world, u.id.toString = "89abcdef0123456789abcdef" := by
  have hrun : ((freshPortal 0).run envVars saltedLib saltedHash unprivileged
      (registeredB ++ loggedInB)).map (fun p => ((requireAuth (some "at")).exec
        (authStore saltedLib) p.auth.now 1 [""] p.auth.world).bind fun x => x.1.toOption) =
      some (some ("89abcdef0123456789abcdef", .buyer)) := by decide
  obtain ⟨p, hp, hauth⟩ := Option.map_eq_some_iff.mp hrun
  obtain ⟨⟨r, w'⟩, hexec, hr⟩ := Option.bind_eq_some_iff.mp hauth
  cases r with
  | error e => cases hr
  | ok letIn =>
    cases hr
    have hx := Exec.of_exec hexec
    obtain ⟨-, u, hu, hid, -⟩ := let_in_registered hp hx
    exact ⟨p, 1, w', hp, hx, u, hu, hid⟩

/-! ## A login -/

section Login

variable {env : AuthEnv} {lib : AuthLib} {now i : Nat} {w w' : AuthWorld} {r : Except Err AuthRes}
  {sub fam : String} {role : Role} {user : UserView}

/-- The end of a login. -/
def issue (env : AuthEnv) (sub fam : String) (role : Role) (user : UserView) :
    AuthProg AuthRes := do
  let access ← signAccess env sub role
  let refreshToken ← signRefresh env sub fam
  let ttl ← .ofExcept (ttlToSeconds env.JWT_REFRESH_TTL)
  saveActiveJti sub fam refreshToken.jti ttl
  let maxAge ← refreshCookieMaxAge env
  return .session ⟨refreshToken.token, maxAge⟩ access user

theorem issue_answer (httl : ∃ ttl, ttlToSeconds env.JWT_REFRESH_TTL = .ok ttl)
    (h : Exec (authStore lib) now i (issue env sub fam role user) w r w') :
    ∃ frt access, r = .ok (.session frt access user) := by
  obtain ⟨ttl, httl⟩ := httl
  obtain ⟨_, access, db₁, -, h⟩ := Exec.inr_op_iff.mp h
  rcases Exec.bind_iff.mp h with ⟨rt, w₁, -, h⟩ | ⟨e, hrt, -⟩
  · simp only [httl, refreshCookieMaxAge] at h
    obtain ⟨_, u, kv, -, h⟩ := Exec.inl_op_iff.mp h
    obtain ⟨rfl, -⟩ := Exec.ret_iff.mp h
    exact ⟨_, _, rfl⟩
  · obtain ⟨_, jti, db₂, -, hrt⟩ := Exec.inr_op_iff.mp hrt
    obtain ⟨_, token, db₃, -, hrt⟩ := Exec.inr_op_iff.mp hrt
    cases hrt

theorem issue_served (httl : ∃ ttl, ttlToSeconds env.JWT_REFRESH_TTL = .ok ttl) :
    ∃ r w', Exec (authStore lib) now i (issue env sub fam role user) w r w' := by
  obtain ⟨ttl, httl⟩ := httl
  obtain ⟨access, haccess⟩ := jwtSign_new lib now i w.2 (.access sub role) .JWT_ACCESS_SECRET
    env.JWT_ACCESS_TTL
  refine served_db haccess ?_
  obtain ⟨rt, db, hrt⟩ := served_signRefresh env lib now i (w.1, w.2.sign _) sub fam
  obtain ⟨r, w', hrest⟩ : ∃ r w', Exec (authStore lib) now i (do
      saveActiveJti sub fam rt.jti ttl
      let maxAge ← refreshCookieMaxAge env
      return AuthRes.session ⟨rt.token, maxAge⟩ access user) (w.1, db) r w' := by
    refine served_kv rfl ?_
    simp only [refreshCookieMaxAge, httl]
    exact ⟨_, _, .ret⟩
  refine ⟨r, w', Exec.bind_iff.mpr (.inl ⟨rt, _, hrt, ?_⟩)⟩
  simp only [httl]
  exact hrest

theorem find_email {users : List User} (hnodup : (users.map (·.email)).Nodup) {u : User}
    (hu : u ∈ users) {email : String} (hemail : u.email = lower email) :
    users.find? (fun u => u.email = lower email) = some u := by
  cases hfind : users.find? fun u => u.email = lower email with
  | none =>
    have hno := List.find?_eq_none.mp hfind u hu
    exact absurd hemail (by simpa using hno)
  | some v =>
    have hv : v.email = lower email := by simpa using List.find?_some hfind
    rw [List.inj_on_of_nodup_map hnodup (List.mem_of_find?_eq_some hfind) hu (hv.trans hemail.symm)]

/-- What becomes of a login with the email of an active user. -/
theorem login_active {email password : String} {u : User}
    (hfind : w.2.users.find? (fun u => u.email = lower email) = some u) (hactive : u.active = true)
    (httl : ∃ ttl, ttlToSeconds env.JWT_REFRESH_TTL = .ok ttl) :
    (∃ r w', Exec (authStore lib) now i (login env (some ⟨email, password⟩)) w r w') ∧
    ∀ r w', Exec (authStore lib) now i (login env (some ⟨email, password⟩)) w r w' →
      if lib.compare password u.passwordHash then
        ∃ frt access, r = .ok (.session frt access ⟨u.id.toString, u.email, u.name, u.role⟩)
      else r = .error (.app (unauthenticated "invalid credentials")) ∧ w' = w := by
  have huser : (some u).filter (·.active) = some u := by simp [Option.filter, hactive]
  constructor
  · have hfound : authDbStore lib now i (.userFindOne email) "" w.2 = some (some u, w.2) :=
      congrArg (fun x => some (x, w.2)) hfind
    have hcompared : authDbStore lib now i (.bcryptCompare password u.passwordHash) "" w.2 =
        some (lib.compare password u.passwordHash, w.2) := rfl
    refine served_db hfound ?_
    simp only [huser]
    refine served_db hcompared ?_
    cases lib.compare password u.passwordHash with
    | false => exact ⟨_, _, .throw⟩
    | true =>
      obtain ⟨fam, hfam⟩ := randomUUID_fresh lib now i w.2
      exact served_db hfam (issue_served httl)
  · intro r w' h
    obtain ⟨_, x, db₁, hx, h⟩ := Exec.inr_op_iff.mp h
    obtain ⟨rfl, rfl⟩ := Prod.mk.inj (Option.some.inj hx)
    simp only [hfind, huser] at h
    obtain ⟨_, ok, db₁, hx, h⟩ := Exec.inr_op_iff.mp h
    obtain ⟨rfl, rfl⟩ := Prod.mk.inj (Option.some.inj hx)
    split at h
    · rename_i hcompare
      rw [if_pos hcompare]
      obtain ⟨_, fam, db₁, -, h⟩ := Exec.inr_op_iff.mp h
      exact issue_answer httl h
    · rename_i hcompare
      rw [if_neg hcompare]
      exact Exec.throw_iff.mp h

end Login

/-- **A registration is good for a login.** In every run that starts with no users, and in which
nobody is given a role by hand: once a registration is answered, and while its user is active, a
login with that email is answered with a session of the user that the registration was told, if the
password passes for the one that was registered, and is refused without an effect if not. -/
theorem registered_login {env : AuthEnv} {lib : AuthLib} {hash : String → String → String}
    {n i : Nat} {p : Portal} {as : List PortalAct} {t : AccountThread} {v : UserView}
    {email password : String} (h : (freshPortal n).run env lib hash unprivileged as = some p)
    (ht : t ∈ p.accounts.pool)
    (hv : t.prog.result = some (.ok v))
    (hactive : ∀ u ∈ p.accounts.world, u.id.toString = v.id → u.active = true)
    (httl : ∃ ttl, ttlToSeconds env.JWT_REFRESH_TTL = .ok ttl) (hemail : lower email = v.email) :
    ∃ body salt, t.req = some body ∧ v.email = lower body.email ∧
      (∃ r w', Exec (authStore lib) p.auth.now i (login env (some ⟨email, password⟩))
        p.auth.world r w') ∧
      ∀ r w', Exec (authStore lib) p.auth.now i (login env (some ⟨email, password⟩))
          p.auth.world r w' →
        if lib.compare password (hash body.password salt) then
          ∃ frt access, r = .ok (.session frt access v)
        else r = .error (.app (unauthenticated "invalid credentials")) ∧ w' = p.auth.world := by
  have hportal := enrolled_run h
  have hregisters := registers_reachable hportal.registrations List.nodup_nil
  obtain ⟨u, hu, rfl⟩ := created_of_answer hportal.registrations ht hv
  have hgood := hregisters.good t ht
  rw [Applicant.Good, hu] at hgood
  obtain ⟨hrole, hmem, -, body, hbody, hmade, -, salt, hsalt⟩ := hgood
  obtain ⟨u', hu', heq⟩ := List.mem_map.mp hmem
  have hid : u'.id = u.id := congrArg Account.id heq
  have hemail' : u'.email = u.email := congrArg Account.email heq
  have hname : u'.name = u.name := congrArg Account.name heq
  have hhash : u'.passwordHash = hash body.password salt :=
    (congrArg Account.passwordHash heq).trans hsalt
  have hview : (⟨u'.id.toString, u'.email, u'.name, u'.role⟩ : UserView) =
      ⟨u.id.toString, u.email, u.name, u.role⟩ := by
    rw [hid, hemail', hname, hportal.buyers u' hu', hrole]
  have hfind : p.auth.world.2.users.find? (fun u => u.email = lower email) = some u' :=
    hportal.users ▸ find_email (emails_eq p.accounts.world ▸ hregisters.emails) hu'
      (hemail'.trans hemail.symm)
  have hlogin := @login_active env lib p.auth.now i p.auth.world email password u' hfind
    (hactive u' hu' (congrArg ObjectId.toString hid)) httl
  rw [hview, hhash] at hlogin
  exact ⟨body, salt, (applicant_req t).symm.trans hbody, hmade.trans (emailOf_body body), hlogin⟩

theorem registered_login_password : ∃ p i r w',
    (freshPortal 0).run envVars saltedLib saltedHash unprivileged registeredB = some p ∧
    Exec (authStore saltedLib) p.auth.now i
      (login envVars (some ⟨"B@test.local", "password2"⟩)) p.auth.world r w' ∧
    ∃ frt access, r = .ok (.session frt access
      ⟨"89abcdef0123456789abcdef", "b@test.local", "B", .buyer⟩) := by
  have hrun : ((freshPortal 0).run envVars saltedLib saltedHash unprivileged registeredB).map
      (fun p => (p.accounts.pool.map fun t => (t.req, t.prog.result.bind Except.toOption),
        p.accounts.world.all (·.active))) =
      some ([(some bodyB, some ⟨"89abcdef0123456789abcdef", "b@test.local", "B", .buyer⟩)],
        true) := by decide
  obtain ⟨p, hp, hs⟩ := Option.map_eq_some_iff.mp hrun
  obtain ⟨hpool, hactive⟩ := Prod.mk.inj hs
  obtain ⟨t, ht, heq⟩ := List.map_eq_singleton_iff.mp hpool
  obtain ⟨hreq, hresult⟩ := Prod.mk.inj heq
  have hv : t.prog.result =
      some (.ok ⟨"89abcdef0123456789abcdef", "b@test.local", "B", .buyer⟩) := by
    obtain ⟨r, hr, hok⟩ := Option.bind_eq_some_iff.mp hresult
    cases r with
    | error e => cases hok
    | ok v => cases hok; exact hr
  have hon : ∀ u ∈ p.accounts.world, u.id.toString = "89abcdef0123456789abcdef" →
      u.active = true := fun u hu _ => List.all_eq_true.mp hactive u hu
  obtain ⟨body, salt, hbody, -, ⟨r, w', hx⟩, hall⟩ :=
    @registered_login envVars saltedLib saltedHash 0 1 p registeredB t _ "B@test.local" "password2"
      hp (ht ▸ List.mem_singleton_self t) hv hon ⟨604800, rfl⟩ (by decide)
  obtain rfl : body = bodyB := Option.some.inj (hbody.symm.trans hreq)
  have hpass : saltedLib.compare "password2" (saltedHash bodyB.password salt) = true := by
    show "password2".toList.isSuffixOf (salt ++ "password2").toList = true
    rw [List.isSuffixOf_iff_suffix, String.toList_append]
    exact List.suffix_append _ _
  have hsession := hall r w' hx
  rw [if_pos hpass] at hsession
  exact ⟨p, 1, r, w', hp, hx, hsession⟩

end Flashkart
