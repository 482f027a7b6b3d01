import Flashkart.Auth.Effects

/-!
# Auth.History

Histories of requests that are served one at a time; between them time passes and users are changed.

* `newest`, `Spoiled`  — the token most recently issued for a family, and whether something has
  happened that ends the family, both said by the requests and answers alone.
* `History.reachable` — a history is a run of the concurrent system.
* `Tokens`            — no two tokens have one text or one JTI, and none outlives the lifetime.
-/

namespace Flashkart

open Async

/-! ## Histories -/

structure Family where
  user : ObjectId
  fam : String

namespace Family

def key (F : Family) : String := familyKey F.user.toString F.fam

/-- The token is one of the family. -/
def Has (F : Family) (p : RefreshPayload) : Prop := p.sub = F.user.toString ∧ p.fam = F.fam

instance (F : Family) (p : RefreshPayload) : Decidable (F.Has p) := inferInstanceAs (Decidable (_ ∧ _))

theorem key_inj {F G : Family} : F.key = G.key ↔ F = G := by
  obtain ⟨u, f⟩ := F
  obtain ⟨v, g⟩ := G
  simp [key, familyKey_inj]

theorem Has.key_eq {F : Family} {p : RefreshPayload} (h : F.Has p) : familyKey p.sub p.fam = F.key := by
  rw [h.1, h.2]
  rfl

theorem Has.unique {F G : Family} {p : RefreshPayload} (hF : F.Has p) (hG : G.Has p) : F = G :=
  key_inj.mp (hF.key_eq.symm.trans hG.key_eq)

end Family

/-- A request that was served, with the database before and after it. -/
structure Exchange where
  time : Nat
  before : AuthDb
  after : AuthDb
  req : AuthReq
  res : Except Err AuthRes

/-- What a refresh token stands for, expired or not. -/
def AuthDb.payload (db : AuthDb) (token : String) : Option RefreshPayload :=
  match db.signed.find? fun d => d.secret = .JWT_REFRESH_SECRET ∧ d.token = token with
  | some ⟨_, _, .refresh p, _⟩ => some p
  | _ => none

namespace Exchange

/-- The token that the answer carries. -/
def issued (x : Exchange) : Option (String × RefreshPayload) :=
  match x.res with
  | .ok (.session frt _ _) => (x.after.payload frt.value).map (frt.value, ·)
  | _ => none

end Exchange

/-- The token most recently issued for a family; the last request comes first. -/
def newest (F : Family) : List Exchange → Option String
  | [] => none
  | x :: older =>
    match x.issued with
    | some (token, p) => if F.Has p then some token else newest F older
    | none => newest F older

namespace Exchange

/-- An unexpired token of the family was presented to `/auth/refresh`. -/
def Refreshes (F : Family) (x : Exchange) (token : String) : Prop :=
  x.req = .refresh (some token) ∧ ∃ p, x.before.valid x.time token = some p ∧ F.Has p

def Reuses (F : Family) (older : List Exchange) (x : Exchange) : Prop :=
  ∃ token, x.Refreshes F token ∧ newest F older ≠ some token

def LogsOut (F : Family) (x : Exchange) : Prop :=
  ∃ token p, x.req = .logout (some token) ∧ x.before.valid x.time token = some p ∧ F.Has p

def WhileInactive (F : Family) (x : Exchange) : Prop :=
  ∃ token, x.Refreshes F token ∧ x.before.active F.user.toString = false

end Exchange

/-- A token of the family was refreshed when it was superseded, or logged out, or refreshed while
its user was inactive or missing. -/
def Spoiled (F : Family) : List Exchange → Prop
  | [] => False
  | x :: older => x.Reuses F older ∨ x.LogsOut F ∨ x.WhileInactive F ∨ Spoiled F older

structure Past where
  now : Nat
  world : AuthWorld
  served : List Exchange

inductive AuthEvent where
  | request (req : AuthReq) (choices : List String)
  | wait (d : Nat)
  | change (users : List User)

namespace Past

def start (now : Nat) (users : List User) : Past := ⟨now, (fun _ => none, ⟨users, [], []⟩), []⟩

/-- The state after a request that was answered with `r` and left the stores as `w'`. -/
def after (s : Past) (req : AuthReq) (r : Except Err AuthRes) (w' : AuthWorld) : Past :=
  ⟨s.now, w', ⟨s.now, s.world.2, w'.2, req, r⟩ :: s.served⟩

def step (env : AuthEnv) (lib : AuthLib) (s : Past) : AuthEvent → Option Past
  | .request req choices =>
    ((authProg env req).exec (authStore lib) s.now s.served.length choices s.world).map fun x =>
      s.after req x.1 x.2
  | .wait d => some { s with now := s.now + d }
  | .change users => some { s with world := (s.world.1, { s.world.2 with users := users }) }

def run (env : AuthEnv) (lib : AuthLib) : List AuthEvent → Past → Option Past
  | [], s => some s
  | a :: as, s => (s.step env lib a).bind (run env lib as)

end Past

inductive History (env : AuthEnv) (lib : AuthLib) (now : Nat) (users : List User) : Past → Prop where
  | start : History env lib now users (.start now users)
  | step {s s' : Past} {a : AuthEvent} :
      History env lib now users s → s.step env lib a = some s' → History env lib now users s'

variable {env : AuthEnv} {lib : AuthLib} {n : Nat} {users : List User} {s s' : Past}

theorem History.run {as : List AuthEvent} (h : History env lib n users s)
    (hs : s.run env lib as = some s') : History env lib n users s' := by
  induction as generalizing s with
  | nil => cases hs; exact h
  | cons a as ih =>
    obtain ⟨s₁, hstep, hs⟩ := Option.bind_eq_some_iff.mp hs
    exact ih (.step h hstep) hs

/-- A history is a run of the concurrent system, with the same answers. -/
theorem History.reachable (h : History env lib n users s) :
    ∃ c, (authSystem env lib).Reachable (fun _ _ => True) (freshAuth n users) c ∧ c.now = s.now ∧
      c.world = s.world ∧ c.pool.map (fun t => (t.req, t.prog.result)) =
        s.served.reverse.map fun x => (x.req, some x.res) := by
  induction h with
  | start => exact ⟨_, .init, rfl, rfl, rfl⟩
  | @step s s' a _ hs ih =>
    obtain ⟨c, hr, hnow, hw, hpool⟩ := ih
    cases a with
    | request req choices =>
      obtain ⟨⟨r, w'⟩, hx, rfl⟩ := Option.map_eq_some_iff.mp hs
      have hlen : c.pool.length = s.served.length := by
        simpa using congrArg List.length hpool
      have hexec := Exec.of_exec hx
      rw [← hnow, ← hlen] at hexec
      have harrive : (authSystem env lib).step c (.arrive req) =
          some { c with pool := c.pool ++ [⟨c.pool.length, req, authProg env req, []⟩] } := rfl
      obtain ⟨c', hr', hnow', hw', q, tr, hq, hpool'⟩ := Exec.reachable
        (M := authSystem env lib) (fun _ _ => True) (fun _ _ _ => trivial)
        (c := { c with pool := c.pool ++ [⟨c.pool.length, req, authProg env req, []⟩] })
        hexec hw (j := c.pool.length) (List.getElem?_concat_length)
      refine ⟨c', .trans (.step hr trivial harrive) hr', hnow'.trans hnow, hw', ?_⟩
      rw [hpool']
      simp [Past.after, hpool, hq]
    | wait d =>
      cases hs
      exact ⟨{ c with now := c.now + d }, .step hr (a := .tick d) trivial rfl,
        congrArg (· + d) hnow, hw, hpool⟩
    | change us =>
      cases hs
      refine ⟨{ c with world := (c.world.1, { c.world.2 with users := us }) },
        .step hr (a := .env us) trivial rfl, hnow, ?_, hpool⟩
      rw [hw]

/-! ## The tokens that were signed -/

def AuthDb.HasRefresh (db : AuthDb) (d : SignedToken) (p : RefreshPayload) : Prop :=
  d ∈ db.signed ∧ d.secret = .JWT_REFRESH_SECRET ∧ d.payload = .refresh p

structure Tokens (env : AuthEnv) (now : Nat) (db : AuthDb) : Prop where
  sound : ∀ d p, db.HasRefresh d p → d.token ≠ "" ∧ p.jti ≠ "" ∧ p.jti ∈ db.drawn ∧
    ∃ F : Family, F.Has p ∧ F.fam ∈ db.drawn
  apart : ∀ d p d' p', db.HasRefresh d p → db.HasRefresh d' p' →
    d.token = d'.token ∨ p.jti = p'.jti → d = d'
  bounded : ∀ ttl, ttlToSeconds env.JWT_REFRESH_TTL = .ok ttl → ∀ d p, db.HasRefresh d p →
    d.expiry ≤ now + ttl * 1000

variable {now now' : Nat} {db db' : AuthDb} {token : String} {p : RefreshPayload} {F G : Family}

theorem hasRefresh_of_valid (h : db.valid now token = some p) :
    ∃ d, db.HasRefresh d p ∧ d.token = token ∧ now < d.expiry := by
  simp only [AuthDb.valid] at h
  split at h
  · rename_i secret text q expiry hfind
    cases h
    have hmem := List.mem_of_find?_eq_some hfind
    have hfound := List.find?_some hfind
    simp only [decide_eq_true_eq] at hfound
    obtain ⟨hsecret, htoken, hlt⟩ := hfound
    exact ⟨_, ⟨hmem, hsecret, rfl⟩, htoken, hlt⟩
  · cases h

theorem Tokens.later (h : Tokens env now db) (hle : now ≤ now') : Tokens env now' db := by
  refine ⟨h.sound, h.apart, fun ttl httl d p hd => ?_⟩
  have := h.bounded ttl httl d p hd
  omega

theorem Tokens.change (h : Tokens env now db) (users : List User) :
    Tokens env now { db with users := users } := ⟨h.sound, h.apart, h.bounded⟩

theorem Tokens.draw (h : Tokens env now db) (t : String) : Tokens env now (db.draw t) := by
  refine ⟨fun d p hd => ?_, h.apart, h.bounded⟩
  obtain ⟨htoken, hjti, hdrawn, F, hF, hfam⟩ := h.sound d p hd
  exact ⟨htoken, hjti, List.mem_cons_of_mem _ hdrawn, F, hF, List.mem_cons_of_mem _ hfam⟩

/-- The token that is minted. -/
def minted (env : AuthEnv) (lib : AuthLib) (now : Nat) (token : String) (p : RefreshPayload) :
    SignedToken :=
  ⟨.JWT_REFRESH_SECRET, token, .refresh p, lib.expires now env.JWT_REFRESH_TTL⟩

theorem Mints.hasRefresh (h : Mints env lib now db db' token p) {d : SignedToken}
    {q : RefreshPayload} : db'.HasRefresh d q ↔
      (d = minted env lib now token p ∧ q = p) ∨ db.HasRefresh d q := by
  constructor
  · rintro ⟨hmem, hsecret, hpay⟩
    rcases (h.signed d hsecret).mp hmem with rfl | hmem
    · cases hpay
      exact .inl ⟨rfl, rfl⟩
    · exact .inr ⟨hmem, hsecret, hpay⟩
  · rintro (⟨rfl, rfl⟩ | ⟨hmem, hsecret, hpay⟩)
    · exact ⟨(h.signed _ rfl).mpr (.inl rfl), rfl, rfl⟩
    · exact ⟨(h.signed d hsecret).mpr (.inr hmem), hsecret, hpay⟩

/-- No token before has the text or the JTI of the minted one. -/
theorem Mints.new (h : Mints env lib now db db' token p) (ht : Tokens env now db) {d : SignedToken}
    {q : RefreshPayload} (hd : db.HasRefresh d q) : d.token ≠ token ∧ q.jti ≠ p.jti := by
  have hjti : q.jti ≠ p.jti := by
    intro heq
    have hdrawn := (ht.sound d q hd).2.2.1
    rw [heq] at hdrawn
    exact h.fresh hdrawn
  refine ⟨fun htoken => hjti ?_, hjti⟩
  have hpay := h.texts d hd.1 hd.2.1 htoken
  rw [hd.2.2] at hpay
  rw [JwtPayload.refresh.inj hpay]

theorem Tokens.mint (ht : Tokens env now db) (h : Mints env lib now db db' token p)
    (hlib : ∀ ttl, ttlToSeconds env.JWT_REFRESH_TTL = .ok ttl →
      lib.expires now env.JWT_REFRESH_TTL = now + ttl * 1000)
    (hG : G.Has p) (hfam : G.fam ∈ db.drawn) : Tokens env now db' := by
  have hdrawn : ∀ x ∈ db.drawn, x ∈ db'.drawn := fun x hx => by
    rw [h.drawn]
    exact List.mem_cons_of_mem _ hx
  refine ⟨fun d q hd => ?_, fun d q d' q' hd hd' heq => ?_, fun ttl httl d q hd => ?_⟩
  · rcases h.hasRefresh.mp hd with ⟨rfl, rfl⟩ | hd
    · exact ⟨h.text, h.named, by rw [h.drawn]; exact List.mem_cons_self .., G, hG, hdrawn _ hfam⟩
    · obtain ⟨htoken, hjti, hin, F, hF, hin'⟩ := ht.sound d q hd
      exact ⟨htoken, hjti, hdrawn _ hin, F, hF, hdrawn _ hin'⟩
  · rcases h.hasRefresh.mp hd with ⟨rfl, rfl⟩ | hd
    · rcases h.hasRefresh.mp hd' with ⟨rfl, rfl⟩ | hd'
      · rfl
      · obtain ⟨htoken, hjti⟩ := h.new ht hd'
        exact absurd heq (not_or.mpr ⟨htoken.symm, hjti.symm⟩)
    · rcases h.hasRefresh.mp hd' with ⟨rfl, rfl⟩ | hd'
      · exact absurd heq (not_or.mpr (h.new ht hd))
      · exact ht.apart d q d' q' hd hd' heq
  · rcases h.hasRefresh.mp hd with ⟨rfl, rfl⟩ | hd
    · exact (hlib ttl httl).le
    · exact ht.bounded ttl httl d q hd

/-- What the text of a minted token stands for. -/
theorem Mints.payload (h : Mints env lib now db db' token p) : db'.payload token = some p := by
  have hmem : minted env lib now token p ∈ db'.signed := (h.signed _ rfl).mpr (.inl rfl)
  simp only [AuthDb.payload]
  cases hfind : db'.signed.find? fun d =>
      decide (d.secret = .JWT_REFRESH_SECRET ∧ d.token = token) with
  | none =>
    have hno := List.find?_eq_none.mp hfind _ hmem
    simp [minted] at hno
  | some d =>
    have hfound := List.find?_some hfind
    simp only [decide_eq_true_eq] at hfound
    have hpay : d.payload = .refresh p := by
      rcases (h.signed d hfound.1).mp (List.mem_of_find?_eq_some hfind) with rfl | hd
      · rfl
      · exact h.texts d hd hfound.1 hfound.2
    obtain ⟨secret, text, payload, expiry⟩ := d
    cases hpay
    rfl

end Flashkart
