import Flashkart.Auth.Families

/-!
# Auth.Rotation

How often a refresh token can be used. The check of its JTI and the save of the next one are two
Redis commands with the user's lookup between them, and the save does not look at what is there.

* `rotates_once`  — as long as no refresh finds its JTI active while another one of the family is
  between its own check and its save, a token leads to one successful refresh.
* `rotated_twice` — two refreshes with one token that both find it active.
-/

namespace Flashkart

open Async Phase

/-- A refresh finds its JTI active only while no other one holds the family. -/
def checksAlone (c : AuthConfig) : AuthAct → Bool
  | .call i (.answered _) =>
    match c.pool[i]?.map phase, c.next i with
    | some (.presented p), some (.inl (.get k)) =>
      (c.world.1.live c.now k).map (·.value) ≠ some p.payload.jti ||
        (c.pool.eraseIdx i).all fun u => (phase u).holds ≠ some k
    | _, _ => true
  | _ => true

namespace Rotation

/-- A token that was used is not the active one of its family. -/
def Spent (w : AuthWorld) (x : Phase) : Prop :=
  ∀ p, x = .rotated p → ∀ e, w.1 p.key = some e → e.value ≠ p.payload.jti

/-- Two refreshes of one family that passed the check did so with different JTIs. -/
def Differ (x y : Phase) : Prop :=
  ∀ p q, x.passed = some p → y.passed = some q → p.key = q.key → p.payload.jti ≠ q.payload.jti

instance : Std.Symm Differ := ⟨fun _ _ h p q hp hq hk => (h q p hq hp hk.symm).symm⟩

variable {w w' : AuthWorld} {x x' y : Phase} {g : Multiset Phase}

theorem Differ.of_passed (h : Differ x y) (hp : ∀ p, x'.passed = some p → x.passed = some p) :
    Differ x' y := fun p q hx hy => h p q (hp p hx) hy

theorem Spent.shrink (h : Spent w y) (hkv : ∀ k e, w'.1 k = some e → w.1 k = some e) :
    Spent w' y := fun p hp e he => h p hp e (hkv _ e he)

/-- A token whose JTI is found active, and whose family nobody holds, is new among the used
ones. -/
theorem differ_check {p : Presented} {e : Entry String} (he : w.1 p.key = some e)
    (hjti : e.value = p.payload.jti) (hy : Spent w y) (hfree : y.holds ≠ some p.key) :
    Differ (.checked p) y := by
  intro p' q hp hq hk heq
  cases hp
  rcases passed_cases hq with hholds | hrotated
  · rw [← hk] at hholds
    exact hfree hholds
  · rw [hk] at he
    exact hy q hrotated e he (hjti.trans heq)

/-- The save of a JTI that nobody has passed the check with. -/
theorem Spent.save (h : Spent w y) {k v : String} {ex i : Nat}
    (hnew : ∀ p, y.passed = some p → p.payload.jti ≠ v) : Spent (w.1.put k ⟨v, ex, i⟩, w.2) y := by
  intro p hp e he
  rcases Kv.put_eq_some.mp he with ⟨-, rfl⟩ | ⟨-, he⟩
  · subst hp
    exact (hnew p rfl).symm
  · exact h p hp e he

/-! ## Calls -/

/-- Who is at work is as in every run, and a JTI is found active only when nobody else holds the
family. -/
def guard (_ : Nat) (x : Phase) (g : Multiset Phase) (s : Shared authSig Err AuthWorld) :
    authSig.Op → Fate Err String → Prop := fun o f =>
  (Consistent s.world ∧ Bag (Good s.world) Apart ({x} + g)) ∧
    ∀ k p e, o = .inl (.get k) → f.isAnswered = true → x = .presented p →
      s.world.1.live s.now k = some e → e.value = p.payload.jti → ∀ y ∈ g, y.holds ≠ some k

def logic (lib : AuthLib) : Logic authSig Err AuthWorld String Phase (Multiset Phase) where
  store := authStore lib
  guard := guard
  inv := fun s m => Bag (Spent s.world) Differ m
  post := Phase.post
  val := fun x => {x}

variable {lib : AuthLib} {i : Nat}

/-- The call does to the state what `heff` says of it, and an answer tells what `hans` says; an
error ends the request. -/
theorem call_of_effect {o : authSig.Op}
    (heff : ∀ now p a w w', Good w x → authStore lib now i o p w = some (a, w') →
      ∀ y, Good w y → Apart x y → Spent w y → Spent w' y)
    (hans : ∀ now p a w w' g, Good w x → Bag (Spent w) Differ ({x} + g) →
      authStore lib now i o p w = some (a, w') →
      (∀ k p e, o = .inl (.get k) → x = .presented p → w.1.live now k = some e →
        e.value = p.payload.jti → ∀ y ∈ g, y.holds ≠ some k) →
      Spent w' (x.after o (.ok a)) ∧ ∀ y ∈ g, Differ (x.after o (.ok a)) y) :
    (logic lib).Call i x o fun _ _ => True := by
  refine Logic.call_of (fun _ _ _ _ _ => trivial) fun s g f out w' hinv hg hx => ⟨?_, trivial⟩
  obtain ⟨⟨hc, hbag⟩, hfree⟩ := hg
  obtain ⟨hgood, hapart, heach, -⟩ := Bag.singleton_add.mp hbag
  obtain ⟨hspent, hdiffer, hspents, -⟩ := Bag.singleton_add.mp hinv
  have hend : ∀ {v : AuthWorld} {e : Err}, (∀ y ∈ g, Spent v y) →
      Bag (Spent v) Differ ({x.after o (.error e)} + g) := by
    intro v e hv
    rw [after_error]
    refine hinv.step (fun p hp => by cases hp) fun y hy _ hd => ⟨hv y hy, ?_⟩
    exact fun p q hp => by cases hp
  have hothers : ∀ p a, authStore lib s.now i o p s.world = some (a, w') → ∀ y ∈ g, Spent w' y :=
    fun p a hs y hy => heff _ _ _ _ _ hgood hs y (heach y hy) (hapart y hy) (hspents y hy)
  rcases Store.exec_cases hx with ⟨p, a, rfl, hs, rfl⟩ | ⟨e, rfl, rfl, rfl⟩ | ⟨e, p, a, rfl, hs, rfl⟩
  · obtain ⟨h1, h2⟩ := hans _ _ _ _ _ g hgood hinv hs fun k q e ho => hfree k q e ho rfl
    exact hinv.step h1 fun y hy _ _ => ⟨hothers p a hs y hy, h2 y hy⟩
  · exact hend fun y hy => hspents y hy
  · exact hend (hothers p a hs)

theorem call_db {o : AuthOp} : (logic lib).Call i x (.inr o) fun _ _ => True := by
  have hkv : ∀ {now p a w w'}, authStore lib now i (.inr o) p w = some (a, w') → w'.1 = w.1 :=
    fun hs => (Store.sum_inr (f := kvStore) (g := authDbStore lib) hs).2
  refine call_of_effect (fun now p a w w' _ hs y _ _ hy => ?_) fun now p a w w' g _ hbag hs _ => ?_
  · exact hy.shrink fun k e he => hkv hs ▸ he
  · obtain ⟨hspent, hdiffer, -, -⟩ := Bag.singleton_add.mp hbag
    obtain ⟨hpassed, -, hrotated⟩ := afterDb_passed (o := o) (a := a) (x := x)
    refine ⟨fun q hq e he => ?_, fun y hy => (hdiffer y hy).of_passed hpassed⟩
    rw [hkv hs] at he
    exact hspent q (hrotated q hq) e he

/-- The save of a refresh takes the JTI it presented out of use. -/
theorem spent_save {p : Presented} {k v n : String} {ex i : Nat} (hx : Good w (.rotating p n))
    (hready : (rotating p n).ready (.inl (.set k v ex))) {e : Nat} :
    Spent (w.1.put k ⟨v, e, i⟩, w.2) (.rotated p) := by
  obtain ⟨hnext, hk⟩ := hready
  have hkey : p.key = k := Option.some.inj (hk.resolve_right nofun)
  intro q hq d hd
  cases hq
  rcases Kv.put_eq_some.mp hd with ⟨-, rfl⟩ | ⟨hne, -⟩
  · exact ((hx.next v hnext).2.2 p rfl).symm
  · exact absurd hkey hne

theorem call_kv {o : KvOp String} (hready : x.ready (.inl o)) :
    (logic lib).Call i x (.inl o) fun _ _ => True := by
  have hstep : ∀ {now p a w w'}, authStore lib now i (.inl o) p w = some (a, w') →
      kvStore now i o p w.1 = some (a, w'.1) ∧ w'.2 = w.2 :=
    fun hs => Store.sum_inl (f := kvStore) (g := authDbStore lib) hs
  have hover : ∀ {w : AuthWorld} {g : Multiset Phase}, Spent w .over ∧ ∀ y ∈ g, Differ .over y :=
    ⟨fun q hq => (by cases hq), fun y _ q r hq => by cases hq⟩
  cases o with
  | set k v ex =>
    refine call_of_effect (fun now p a w w' _ hs y _ hapart hy => ?_)
      fun now p a w w' g hx hbag hs _ => ?_
    all_goals
      obtain ⟨hs, hdb⟩ := hstep hs
      obtain ⟨kv', db'⟩ := w'
      cases hs
      obtain rfl : db' = w.2 := hdb
    · exact hy.save (hapart.1.next v hready.1).2
    · cases x with
      | rotating q n =>
        obtain ⟨-, hdiffer, -, -⟩ := Bag.singleton_add.mp hbag
        exact ⟨spent_save hx hready, fun y hy => (hdiffer y hy).of_passed fun _ h => h⟩
      | opening u f n => exact hover
      | _ => cases hready.1
  | get k =>
    obtain ⟨p, rfl, rfl⟩ := hready
    refine call_of_effect (fun now c a w w' _ hs y _ _ hy => ?_)
      fun now c a w w' g hx hbag hs hfree => ?_
    all_goals
      obtain ⟨hs, hdb⟩ := hstep hs
      obtain ⟨kv', db'⟩ := w'
      cases hs
      obtain rfl : db' = w.2 := hdb
    · exact hy
    · simp only [after, afterKv]
      split
      · rename_i hlive
        obtain ⟨e, he, hjti⟩ := Option.map_eq_some_iff.mp hlive
        obtain ⟨-, -, hspents, -⟩ := Bag.singleton_add.mp hbag
        refine ⟨fun q hq => (by cases hq), fun y hy => ?_⟩
        exact differ_check (Kv.live_eq_some.mp he).1 hjti (hspents y hy) (hfree _ p e rfl rfl he hjti y hy)
      · exact hover
  | del k =>
    refine call_of_effect (fun now p a w w' _ hs y _ _ hy => ?_) fun now p a w w' g _ _ _ _ => hover
    obtain ⟨hs, -⟩ := hstep hs
    obtain ⟨kv', db'⟩ := w'
    cases hs
    exact hy.shrink fun k' e he => (Kv.erase_eq_some.mp he).2
  | _ => exact hready.elim

theorem outline (env : AuthEnv) (lib : AuthLib) (n : Nat) (users : List User) :
    (authSystem env lib).Outline (fun c a => checksAlone c a = true) (freshAuth n users) (logic lib)
      (fun _ _ => .start) fun _ r => Rotates r where
  store := rfl
  start := ⟨rfl, .zero⟩
  arrive := by
    intro c r w _ _ hacc hinv
    cases hacc
    refine ⟨Bag.singleton_add.mpr ⟨fun p hp => (by cases hp), fun y _ p q hp => (by cases hp), hinv⟩, ?_⟩
    refine (follows_authProg env r).safe fun x o hready => ?_
    cases o with
    | inl o => exact call_kv hready
    | inr o => exact call_db
  tick := fun _ _ _ h => h
  env := by
    intro c g e w _ he hinv
    cases he
    exact hinv
  guard := by
    intro c i f t o k hr hok ht hp _
    have hsound := ((families_outline env lib n users).adequate (hr.mono fun _ _ _ => trivial)).1
    have hnext := System.next_eq ht hp
    constructor
    · rw [System.worth_split ht] at hsound
      exact hsound
    · rintro key q e rfl hf hx hlive hjti y hy
      cases f with
      | answered s =>
        obtain ⟨u, hu, rfl⟩ := (System.mem_worth fun _ => rfl).mp hy
        have hphase : (c.pool[i]?).map phase = some (.presented q) := by
          rw [ht]
          exact congrArg some hx
        have hothers : ∀ x ∈ c.pool.eraseIdx i, (phase x).holds ≠ some key := by
          simpa [checksAlone, hphase, hnext, hlive, hjti] using hok
        exact hothers u hu
      | _ => cases hf

end Rotation

/-- Of any two successful refreshes with one token, both are the same request. -/
def RotatesOnce (pool : List AuthThread) : Prop :=
  ∀ t ∈ pool, ∀ u ∈ pool, ∀ token res res', t.req = .refresh (some token) →
    u.req = .refresh (some token) → t.prog.result = some (.ok res) →
    u.prog.result = some (.ok res') → t.id = u.id

/-- **A token is good for one rotation.** In every run in which no refresh finds its JTI active
while another one holds the family, a token leads to at most one successful refresh. -/
theorem rotates_once {env : AuthEnv} {lib : AuthLib} {n : Nat} {users : List User} {c : AuthConfig}
    (h : (authSystem env lib).Reachable (fun c a => checksAlone c a = true) (freshAuth n users) c) :
    RotatesOnce c.pool := by
  have hall : (authSystem env lib).Reachable (fun _ _ => True) (freshAuth n users) c :=
    h.mono fun _ _ _ => trivial
  have hout := families_outline env lib n users
  obtain ⟨⟨hc, hbag⟩, -⟩ := hout.adequate hall
  obtain ⟨hspent, -⟩ := (Rotation.outline env lib n users).adequate h
  -- what is known of a request that has rotated
  have hrotated : ∀ t ∈ c.pool, ∀ token res, t.req = .refresh (some token) →
      t.prog.result = some (.ok res) → ∃ p, phase t = .rotated p ∧ c.world.2.IsToken token p.payload := by
    intro t ht token res hreq hres
    obtain ⟨p, hp, htoken⟩ := hout.ended hall ht hres (some token) res hreq rfl
    change phase t = .rotated p at hp
    have hgood := hbag.each (phase t) ((System.mem_worth fun _ => rfl).mpr ⟨t, ht, rfl⟩)
    refine ⟨p, hp, ?_⟩
    rw [Option.some.inj htoken]
    exact hgood.shown p (by rw [hp]; rfl)
  intro t ht u hu token res res' htreq hureq htres hures
  obtain ⟨p, hp, hptoken⟩ := hrotated t ht token res htreq htres
  obtain ⟨q, hq, hqtoken⟩ := hrotated u hu token res' hureq hures
  have hpq : p.payload = q.payload := hc.token_inj hptoken hqtoken
  by_contra hne
  obtain ⟨i, hi⟩ := List.mem_iff_getElem?.mp ht
  obtain ⟨j, hj⟩ := List.mem_iff_getElem?.mp hu
  have hij : i ≠ j := by
    rw [h.id_eq rfl i t hi, h.id_eq rfl j u hj] at hne
    exact hne
  have hdiffer : Rotation.Differ (phase t) (phase u) :=
    System.worth_apart (fun _ => rfl) hspent.pair hi hj hij
  rw [hp, hq] at hdiffer
  refine hdiffer p q rfl rfl ?_ (congrArg RefreshPayload.jti hpq)
  rw [Presented.key, Presented.key, hpq]

/-- The second presentation of a token is found out, and the family is gone. -/
theorem rotates_once_reused :
    ∃ c, (authSystem envVars authLib).Reachable (fun c a => checksAlone c a = true)
        (freshAuth 0 [userA]) c ∧
      c.pool.map (fun t => t.prog.result.map authStatus) =
        [some 200, some 200, some 401, some 401] ∧
      RotatesOnce c.pool := by
  have hrun : ((authSystem envVars authLib).run checksAlone (freshAuth 0 [userA]) (loggedIn ++
      .arrive (.refresh (some "rt0")) :: authCalls 1 ["", "", "", "at", "jti1", "rt1", ""] ++
      .arrive (.refresh (some "rt0")) :: authCalls 2 ["", "", ""] ++
      .arrive (.refresh (some "rt1")) :: authCalls 3 ["", ""])).map (fun c =>
        c.pool.map fun t => t.prog.result.map authStatus) =
      some [some 200, some 200, some 401, some 401] := by decide
  obtain ⟨c, hc, hs⟩ := Option.map_eq_some_iff.mp hrun
  exact ⟨c, .of_run hc, hs, rotates_once (.of_run hc)⟩

/-- Two refreshes with one token both find its JTI active, and both succeed. -/
theorem rotated_twice :
    ¬∀ c, (authSystem envVars authLib).Reachable (fun _ _ => True) (freshAuth 0 [userA]) c →
      RotatesOnce c.pool := by
  let answer (t : AuthThread) : Nat × AuthReq × Bool :=
    (t.id, t.req, (t.prog.result.bind Except.toOption).isSome)
  have hrun : ((authSystem envVars authLib).run (fun _ _ => true) (freshAuth 0 [userA]) (loggedIn ++
      .arrive (.refresh (some "rt0")) :: .arrive (.refresh (some "rt0")) ::
      authCalls 1 ["", ""] ++ authCalls 2 ["", ""] ++
      authCalls 1 ["", "at", "jti1", "rt1", ""] ++ authCalls 2 ["", "at", "jti2", "rt2", ""])).map
        (fun c => c.pool.map answer) =
      some [(0, .login (some ⟨"a@test.local", "password1"⟩), true),
        (1, .refresh (some "rt0"), true), (2, .refresh (some "rt0"), true)] := by decide
  obtain ⟨c, hc, hs⟩ := Option.map_eq_some_iff.mp hrun
  have hok : ∀ i, (i, .refresh (some "rt0"), true) ∈ c.pool.map answer → ∃ t ∈ c.pool, t.id = i ∧
      t.req = .refresh (some "rt0") ∧ ∃ res, t.prog.result = some (.ok res) := by
    intro i hi
    obtain ⟨t, ht, hans⟩ := List.mem_map.mp hi
    simp only [answer, Prod.mk.injEq, Option.isSome_iff_exists, Option.bind_eq_some_iff] at hans
    obtain ⟨hid, hreq, res, out, hout, hres⟩ := hans
    cases out with
    | error e => cases hres
    | ok a => exact ⟨t, ht, hid, hreq, a, hout⟩
  rw [hs] at hok
  obtain ⟨t, ht, htid, htreq, res, htres⟩ := hok 1 (by simp)
  obtain ⟨u, hu, huid, hureq, res', hures⟩ := hok 2 (by simp)
  intro h
  have heq := h c ((System.Reachable.of_run hc).mono fun _ _ _ => trivial) t ht u hu "rt0" res res'
    htreq hureq htres hures
  omega

end Flashkart
