import Flashkart.Auth.Phase

/-!
# Auth.Families

What holds of families and JTIs in every run. A JTI that is drawn for a save is saved nowhere and
was never found active, a family that is being opened has no key yet and nobody else works on it,
and a token stands for one payload.

`families_outline` proves it for the whole system; the statements about rotation and revocation
build on it.
-/

namespace Flashkart

open Async

/-- The key of a family that a login has drawn. -/
def IsFamily (drawn : List String) (k : String) : Prop :=
  ∃ u : ObjectId, ∃ f ∈ drawn, k = familyKey u.toString f

theorem IsFamily.mono {drawn drawn' : List String} {k : String} (h : IsFamily drawn k)
    (hsub : ∀ s ∈ drawn, s ∈ drawn') : IsFamily drawn' k := by
  obtain ⟨u, f, hf, rfl⟩ := h
  exact ⟨u, f, hsub f hf, rfl⟩

/-- A new UUID makes a new family. -/
theorem not_isFamily {drawn : List String} {u : ObjectId} {f : String} (hf : f ∉ drawn) :
    ¬IsFamily drawn (familyKey u.toString f) := by
  intro ⟨v, g, hg, heq⟩
  obtain ⟨-, rfl⟩ := familyKey_inj.mp heq
  exact hf hg

/-- The text `t` was signed as a refresh token for `p`. -/
def AuthDb.IsToken (db : AuthDb) (t : String) (p : RefreshPayload) : Prop :=
  ∃ ex, ⟨.JWT_REFRESH_SECRET, t, .refresh p, ex⟩ ∈ db.signed

/-- What holds of the stores. -/
structure Consistent (w : AuthWorld) : Prop where
  saved : ∀ k e, w.1 k = some e → e.value ∈ w.2.drawn ∧ IsFamily w.2.drawn k
  tokens : ∀ d ∈ w.2.signed, ∀ d' ∈ w.2.signed, d.secret = d'.secret → d.token = d'.token →
    d.payload = d'.payload
  families : ∀ t p, w.2.IsToken t p → IsFamily w.2.drawn (familyKey p.sub p.fam)

theorem Consistent.token_inj {w : AuthWorld} (h : Consistent w) {t : String} {p q : RefreshPayload}
    (hp : w.2.IsToken t p) (hq : w.2.IsToken t q) : p = q := by
  obtain ⟨ex, hp⟩ := hp
  obtain ⟨ex', hq⟩ := hq
  exact JwtPayload.refresh.inj (h.tokens _ hp _ hq rfl rfl)

namespace Phase

/-- What holds of a request. -/
structure Good (w : AuthWorld) (x : Phase) : Prop where
  shown : ∀ p, x.shown = some p → w.2.IsToken p.token p.payload
  passed : ∀ p, x.passed = some p → p.payload.jti ∈ w.2.drawn
  next : ∀ n, x.next = some n → n ∈ w.2.drawn ∧ (∀ k e, w.1 k = some e → e.value ≠ n) ∧
    ∀ p, x.passed = some p → p.payload.jti ≠ n
  opens : ∀ k, x.opens = some k → IsFamily w.2.drawn k ∧ w.1 k = none

/-- `y` keeps off the JTI that `x` has drawn and off the family that `x` opens. -/
structure Clear (x y : Phase) : Prop where
  next : ∀ n, x.next = some n → y.next ≠ some n ∧ ∀ p, y.passed = some p → p.payload.jti ≠ n
  opens : ∀ k, x.opens = some k → y.opens ≠ some k ∧ y.holds ≠ some k

def Apart (x y : Phase) : Prop := x.Clear y ∧ y.Clear x

instance : Std.Symm Apart := ⟨fun _ _ h => ⟨h.2, h.1⟩⟩

/-- `x'` has drawn, checked and opened nothing that `x` has not. -/
structure Within (x' x : Phase) : Prop where
  passed : ∀ p, x'.passed = some p → x.passed = some p
  holds : ∀ k, x'.holds = some k → x.holds = some k
  next : ∀ n, x'.next = some n → x.next = some n
  opens : ∀ k, x'.opens = some k → x.opens = some k

variable {w w' : AuthWorld} {x x' y : Phase}

theorem Within.refl (x : Phase) : x.Within x := ⟨fun _ h => h, fun _ h => h, fun _ h => h,
  fun _ h => h⟩

/-- A phase before the check, or after everything. -/
theorem Within.of_none (hp : x'.passed = none) (hn : x'.next = none) (ho : x'.opens = none) :
    x'.Within x where
  passed := fun p h => by rw [hp] at h; cases h
  holds := fun k h => by
    obtain ⟨p, h, -⟩ := holds_eq_some h
    rw [hp] at h
    cases h
  next := fun n h => by rw [hn] at h; cases h
  opens := fun k h => by rw [ho] at h; cases h

theorem Good.within (h : Good w x) (hx : x'.Within x)
    (hs : ∀ p, x'.shown = some p → w.2.IsToken p.token p.payload) : Good w x' where
  shown := hs
  passed := fun p hp => h.passed p (hx.passed p hp)
  next := fun n hn => by
    obtain ⟨h1, h2, h3⟩ := h.next n (hx.next n hn)
    exact ⟨h1, h2, fun p hp => h3 p (hx.passed p hp)⟩
  opens := fun k hk => h.opens k (hx.opens k hk)

theorem Apart.within (h : Apart x y) (hx : x'.Within x) : Apart x' y := by
  obtain ⟨⟨h1, h2⟩, ⟨h3, h4⟩⟩ := h
  refine ⟨⟨fun n hn => h1 n (hx.next n hn), fun k hk => h2 k (hx.opens k hk)⟩, ?_, ?_⟩
  · intro n hn
    obtain ⟨hnext, hpassed⟩ := h3 n hn
    exact ⟨fun h => hnext (hx.next n h), fun p hp => hpassed p (hx.passed p hp)⟩
  · intro k hk
    obtain ⟨hopens, hholds⟩ := h4 k hk
    exact ⟨fun h => hopens (hx.opens k h), fun h => hholds (hx.holds k h)⟩

end Phase

open Phase

/-- No key is written, and nothing that was drawn or signed is forgotten. -/
structure Grows (w w' : AuthWorld) : Prop where
  kv : ∀ k e, w'.1 k = some e → w.1 k = some e
  drawn : ∀ s ∈ w.2.drawn, s ∈ w'.2.drawn
  signed : ∀ d ∈ w.2.signed, d ∈ w'.2.signed

variable {w w' : AuthWorld} {x x' y : Phase}

theorem Grows.refl (w : AuthWorld) : Grows w w := ⟨fun _ _ h => h, fun _ h => h, fun _ h => h⟩

theorem Grows.token (h : Grows w w') {t : String} {p : RefreshPayload} (ht : w.2.IsToken t p) :
    w'.2.IsToken t p := by
  obtain ⟨ex, ht⟩ := ht
  exact ⟨ex, h.signed _ ht⟩

theorem Phase.Good.grow (h : Good w x) (hw : Grows w w') : Good w' x where
  shown := fun p hp => hw.token (h.shown p hp)
  passed := fun p hp => hw.drawn _ (h.passed p hp)
  next := fun n hn => by
    obtain ⟨h1, h2, h3⟩ := h.next n hn
    exact ⟨hw.drawn n h1, fun k e he => h2 k e (hw.kv k e he), h3⟩
  opens := fun k hk => by
    obtain ⟨h1, h2⟩ := h.opens k hk
    refine ⟨h1.mono hw.drawn, ?_⟩
    cases he : w'.1 k with
    | none => rfl
    | some e => rw [hw.kv k e he] at h2; cases h2

theorem Consistent.shown (h : Consistent w) (hx : Good w x) {p : Presented}
    (hp : x.shown = some p) : IsFamily w.2.drawn p.key :=
  h.families _ _ (hx.shown p hp)

theorem Consistent.works (h : Consistent w) (hx : Good w x) {k : String}
    (hk : x.holds = some k ∨ x.opens = some k) : IsFamily w.2.drawn k := by
  rcases hk with hk | hk
  · obtain ⟨p, hp, rfl⟩ := holds_eq_some hk
    exact h.shown hx (passed_shown hp)
  · exact (hx.opens k hk).1

/-! ## Steps -/

/-- What is to be shown of a step of one request. -/
structure Keep (w w' : AuthWorld) (x x' : Phase) : Prop where
  consistent : Consistent w'
  good : Good w' x'
  others : ∀ y, Good w y → Apart x y → Good w' y ∧ Apart x' y

/-- Nothing that is written or shown matters to another request. -/
theorem keep_within (hc : Consistent w') (hw : Grows w w') (hx : Good w x) (h : x'.Within x)
    (hs : ∀ p, x'.shown = some p → w'.2.IsToken p.token p.payload) : Keep w w' x x' where
  consistent := hc
  good := (hx.grow hw).within h hs
  others := fun _ hy hapart => ⟨hy.grow hw, hapart.within h⟩

theorem keep_same (hc : Consistent w') (hw : Grows w w') (hx : Good w x) : Keep w w' x x :=
  keep_within hc hw hx (.refl x) fun p hp => hw.token (hx.shown p hp)

/-- The token's JTI is the active one. -/
theorem keep_check (hc : Consistent w) {p : Presented} (hx : Good w (.presented p)) {e : Entry String}
    (he : w.1 p.key = some e) (hjti : e.value = p.payload.jti) :
    Keep w w (.presented p) (.checked p) where
  consistent := hc
  good :=
    { shown := fun q hq => hx.shown q hq
      passed := fun q hq => by
        cases hq
        rw [← hjti]
        exact (hc.saved _ e he).1
      next := fun n hn => by cases hn
      opens := fun k hk => by cases hk }
  others := fun y hy hapart => by
    refine ⟨hy, ⟨nofun, nofun⟩, ⟨fun n hn => ?_, fun k hk => ?_⟩⟩
    · refine ⟨nofun, fun q hq => ?_⟩
      cases hq
      rw [← hjti]
      exact (hy.next n hn).2.1 _ e he
    · refine ⟨nofun, fun hk' => ?_⟩
      have hnone := (hy.opens k hk).2
      cases hk'
      rw [he] at hnone
      cases hnone

theorem grows_draw (s : String) : Grows w (w.1, w.2.draw s) :=
  ⟨fun _ _ h => h, fun _ h => List.mem_cons_of_mem _ h, fun _ h => h⟩

theorem Consistent.draw (h : Consistent w) (s : String) : Consistent (w.1, w.2.draw s) where
  saved := fun k e he => by
    obtain ⟨h1, h2⟩ := h.saved k e he
    exact ⟨List.mem_cons_of_mem _ h1, h2.mono fun _ hs => List.mem_cons_of_mem _ hs⟩
  tokens := h.tokens
  families := fun t p ht => (h.families t p ht).mono fun _ hs => List.mem_cons_of_mem _ hs

/-- A request that draws a JTI for the family it works on. -/
theorem keep_next (hc : Consistent w) (hx : Good w x) {s : String} (hs : s ∉ w.2.drawn)
    (hnext : x'.next = some s) (hshown : x'.shown = x.shown)
    (hpassed : x'.passed = x.passed) (hholds : x'.holds = x.holds) (hopens : x'.opens = x.opens) :
    Keep w (w.1, w.2.draw s) x x' where
  consistent := hc.draw s
  good :=
    { shown := fun p hp => hx.shown p (hshown ▸ hp)
      passed := fun p hp => List.mem_cons_of_mem _ (hx.passed p (hpassed ▸ hp))
      next := fun n hn => by
        obtain rfl : s = n := Option.some.inj (hnext.symm.trans hn)
        refine ⟨List.mem_cons_self .., fun k e he heq => ?_, fun p hp heq => ?_⟩
        · rw [← heq] at hs
          exact hs (hc.saved k e he).1
        · rw [← heq] at hs
          exact hs (hx.passed p (hpassed ▸ hp))
      opens := fun k hk => (hx.grow (grows_draw s)).opens k (hopens ▸ hk) }
  others := fun y hy hapart => by
    obtain ⟨hxy, hyx⟩ := hapart
    refine ⟨hy.grow (grows_draw s), ⟨fun n hn => ?_, ?_⟩, ⟨fun n hn => ?_, ?_⟩⟩
    · obtain rfl : s = n := Option.some.inj (hnext.symm.trans hn)
      exact ⟨fun h => hs (hy.next s h).1, fun p hp heq => hs (heq ▸ hy.passed p hp)⟩
    · rw [hopens]
      exact hxy.opens
    · rw [hnext, hpassed]
      exact ⟨fun h => hs (Option.some.inj h ▸ (hy.next n hn).1), (hyx.next n hn).2⟩
    · rw [hopens, hholds]
      exact hyx.opens

/-- A login that draws the id of a new family. -/
theorem keep_found (hc : Consistent w) {s : String} (hs : s ∉ w.2.drawn) (u : ObjectId) :
    Keep w (w.1, w.2.draw s) (.found u) (.founding u s) where
  consistent := hc.draw s
  good :=
    { shown := fun p hp => by cases hp
      passed := fun p hp => by cases hp
      next := fun n hn => by cases hn
      opens := fun k hk => by
        cases hk
        refine ⟨⟨u, s, List.mem_cons_self .., rfl⟩, ?_⟩
        cases he : w.1 (familyKey u.toString s) with
        | none => rfl
        | some e => exact absurd (hc.saved _ e he).2 (not_isFamily hs) }
  others := fun y hy hapart => by
    have hfree : y.opens ≠ some (familyKey u.toString s) ∧ y.holds ≠ some (familyKey u.toString s) :=
      ⟨fun h => not_isFamily hs (hc.works hy (.inr h)), fun h => not_isFamily hs (hc.works hy (.inl h))⟩
    refine ⟨hy.grow (grows_draw s), ⟨fun n hn => ?_, fun k hk => ?_⟩, ⟨fun n hn => ?_, fun k hk => ?_⟩⟩
    · cases hn
    · cases hk
      exact hfree
    · exact ⟨nofun, fun p hp => by cases hp⟩
    · refine ⟨fun h => ?_, nofun⟩
      cases h
      exact hfree.1 hk

/-- A save: of the JTI that was drawn, under the key of the family that is held or opened. -/
theorem keep_save (hc : Consistent w) (hx : Good w x) {k v : String} (hnext : x.next = some v)
    (hk : x.holds = some k ∨ x.opens = some k) {ex i : Nat} (hnone : x'.next = none)
    (hopens : x'.opens = none) (hholds : x'.holds = none)
    (hpassed : ∀ p, x'.passed = some p → x.passed = some p)
    (hshown : ∀ p, x'.shown = some p → x.shown = some p) :
    Keep w (w.1.put k ⟨v, ex, i⟩, w.2) x x' where
  consistent :=
    { saved := fun k' e he => by
        rcases Kv.put_eq_some.mp he with ⟨rfl, rfl⟩ | ⟨-, he⟩
        · exact ⟨(hx.next v hnext).1, hc.works hx hk⟩
        · exact hc.saved k' e he
      tokens := hc.tokens
      families := hc.families }
  good :=
    { shown := fun p hp => hx.shown p (hshown p hp)
      passed := fun p hp => hx.passed p (hpassed p hp)
      next := fun n hn => by rw [hnone] at hn; cases hn
      opens := fun k' hk' => by rw [hopens] at hk'; cases hk' }
  others := fun y hy hapart => by
    refine ⟨⟨hy.shown, hy.passed, fun n hn => ?_, fun k' hk' => ?_⟩, hapart.within ⟨hpassed, ?_, ?_, ?_⟩⟩
    · obtain ⟨h1, h2, h3⟩ := hy.next n hn
      refine ⟨h1, fun k' e he => ?_, h3⟩
      rcases Kv.put_eq_some.mp he with ⟨rfl, rfl⟩ | ⟨-, he⟩
      · exact fun h => (hapart.1.next v hnext).1 (hn.trans (congrArg some h.symm))
      · exact h2 k' e he
    · obtain ⟨h1, h2⟩ := hy.opens k' hk'
      have hne : k' ≠ k := by
        rintro rfl
        obtain ⟨hno, hnh⟩ := hapart.2.opens k' hk'
        exact hk.elim hnh hno
      exact ⟨h1, (Function.update_of_ne hne _ _).trans h2⟩
    · exact fun k' h => by rw [hholds] at h; cases h
    · exact fun n h => by rw [hnone] at h; cases h
    · exact fun k' h => by rw [hopens] at h; cases h

theorem keep_erase (hc : Consistent w) (hx : Good w x) (k : String) :
    Keep w (w.1.erase k, w.2) x .over := by
  have hkv : ∀ k' e, (w.1.erase k) k' = some e → w.1 k' = some e :=
    fun k' e he => (Kv.erase_eq_some.mp he).2
  refine keep_within ⟨fun k' e he => hc.saved k' e (hkv k' e he), hc.tokens, hc.families⟩
    ⟨hkv, fun _ h => h, fun _ h => h⟩ hx (.of_none rfl rfl rfl) fun p hp => by cases hp

/-- A token is signed: a new text, or one that already stands for the payload. -/
theorem keep_sign (hc : Consistent w) (hx : Good w x) {payload : JwtPayload} {secret : JwtSecret}
    {ttl token : String} (hready : x.ready (.inr (.jwtSign payload secret ttl)))
    (hnew : ∀ d ∈ w.2.signed, d.secret = secret → d.token = token → d.payload = payload) {ex : Nat} :
    Keep w (w.1, { w.2 with signed := ⟨secret, token, payload, ex⟩ :: w.2.signed }) x x := by
  refine keep_same ⟨hc.saved, ?_, ?_⟩ ⟨fun _ _ h => h, fun _ h => h, fun _ h => List.mem_cons_of_mem _ h⟩ hx
  · intro d hd d' hd' hsecret htoken
    rcases List.mem_cons.mp hd with rfl | hd
    · rcases List.mem_cons.mp hd' with rfl | hd'
      · rfl
      · exact (hnew d' hd' hsecret.symm htoken.symm).symm
    · rcases List.mem_cons.mp hd' with rfl | hd'
      · exact hnew d hd hsecret htoken
      · exact hc.tokens d hd d' hd' hsecret htoken
  · rintro t p ⟨ex', ht⟩
    rcases List.mem_cons.mp ht with heq | ht
    · cases heq
      exact hc.works hx hready
    · exact hc.families t p ⟨ex', ht⟩

theorem keep_uuid (hc : Consistent w) (hx : Good w x) {s : String} (hs : s ∉ w.2.drawn) :
    Keep w (w.1, w.2.draw s) x (x.afterDb .randomUUID s) := by
  cases x with
  | found u => exact keep_found hc hs u
  | founding u f => exact keep_next hc hx hs rfl rfl rfl rfl rfl
  | checked p => exact keep_next hc hx hs rfl rfl rfl rfl rfl
  | _ => exact keep_same (hc.draw s) (grows_draw s) hx

/-! What the other calls on the database make known of a phase. -/

theorem keep_userFindOne (hc : Consistent w) (hx : Good w x) (email : String) (u : Option User) :
    Keep w w x (x.afterDb (.userFindOne email) u) := by
  cases u with
  | none => cases x <;> exact keep_same hc (.refl w) hx
  | some u =>
    cases x with
    | start => exact keep_within hc (.refl w) hx (.of_none rfl rfl rfl) fun p hp => by cases hp
    | _ => exact keep_same hc (.refl w) hx

theorem keep_userFindById (hc : Consistent w) (hx : Good w x) (id : String) (u : Option User) :
    Keep w w x (x.afterDb (.userFindById id) u) := by
  cases x with
  | checked p =>
    show Keep w w _ (if _ then _ else _)
    split
    · exact keep_same hc (.refl w) hx
    · exact keep_within hc (.refl w) hx (.of_none rfl rfl rfl) fun p hp => by cases hp
  | _ => exact keep_same hc (.refl w) hx

theorem keep_jwtVerify (hc : Consistent w) (hx : Good w x) {token : String} {secret : JwtSecret}
    {payload : Option JwtPayload} (h : ∀ p, payload = some (.refresh p) → w.2.IsToken token p) :
    Keep w w x (x.afterDb (.jwtVerify token secret) payload) := by
  rcases payload with _ | (_ | p)
  · cases x <;> exact keep_same hc (.refl w) hx
  · cases x <;> exact keep_same hc (.refl w) hx
  · cases x with
    | start =>
      refine keep_within hc (.refl w) hx (.of_none rfl rfl rfl) fun q hq => ?_
      cases hq
      exact h p rfl
    | _ => exact keep_same hc (.refl w) hx

/-! ## The whole system -/

namespace Families

def logic (lib : AuthLib) : Logic authSig Err AuthWorld String Phase (Multiset Phase) where
  store := authStore lib
  guard := fun _ _ _ _ _ _ => True
  inv := fun s m => Consistent s.world ∧ Bag (Good s.world) Apart m
  post := Phase.post
  val := fun x => {x}

variable {lib : AuthLib} {i : Nat}

/-- A call whose answer keeps everything does so when it is lost too, and when it fails. -/
theorem call_of_keep {o : authSig.Op}
    (h : ∀ now p a w w', Consistent w → Good w x → authStore lib now i o p w = some (a, w') →
      Keep w w' x (x.after o (.ok a))) : (logic lib).Call i x o fun _ _ => True := by
  refine Logic.call_of (fun _ _ _ _ _ => trivial) fun s g f out w' hinv _ hx => ⟨?_, trivial⟩
  obtain ⟨hc, hbag⟩ := hinv
  obtain ⟨hgood, -, -⟩ := Bag.singleton_add.mp hbag
  have hover : ∀ {y : Phase}, over.Within y := .of_none rfl rfl rfl
  have hend : ∀ {v : AuthWorld} {e : Err}, Consistent v → (∀ y, Good s.world y → Apart x y →
      Good v y) → Consistent v ∧ Bag (Good v) Apart ({x.after o (.error e)} + g) := by
    intro v e hv hothers
    rw [after_error]
    refine ⟨hv, hbag.step ⟨fun p hp => ?_, fun p hp => ?_, fun n hn => ?_, fun k hk => ?_⟩
      fun y _ hy hapart => ⟨hothers y hy hapart, hapart.within hover⟩⟩
    · cases hp
    · cases hp
    · cases hn
    · cases hk
  rcases Store.exec_cases hx with ⟨p, a, rfl, hs, rfl⟩ | ⟨e, rfl, rfl, rfl⟩ | ⟨e, p, a, rfl, hs, rfl⟩
  · have hk := h _ _ _ _ _ hc hgood hs
    exact ⟨hk.consistent, hbag.step hk.good fun y _ => hk.others y⟩
  · exact hend hc fun y hy _ => hy
  · have hk := h _ _ _ _ _ hc hgood hs
    exact hend hk.consistent fun y hy hapart => (hk.others y hy hapart).1

theorem call_kv {o : KvOp String} (hready : x.ready (.inl o)) :
    (logic lib).Call i x (.inl o) fun _ _ => True := by
  refine call_of_keep fun now p a w w' hc hx hs => ?_
  obtain ⟨kv, db⟩ := w
  obtain ⟨kv', db'⟩ := w'
  obtain ⟨hs, hdb⟩ := Store.sum_inl (f := kvStore) (g := authDbStore lib) hs
  dsimp only at hs hdb
  subst hdb
  cases o with
  | set k v ex =>
    cases hs
    obtain ⟨hnext, hk⟩ := hready
    cases x with
    | opening u f n =>
      exact keep_save hc hx hnext hk rfl rfl rfl (fun p hp => by cases hp) fun p hp => by cases hp
    | rotating p n => exact keep_save hc hx hnext hk rfl rfl rfl (fun _ h => h) fun _ h => h
    | _ => cases hnext
  | get k =>
    cases hs
    obtain ⟨p, rfl, rfl⟩ := hready
    show Keep (kv, db') (kv, db') _ (if _ then _ else _)
    split
    · rename_i hlive
      obtain ⟨e, he, hjti⟩ := Option.map_eq_some_iff.mp hlive
      exact keep_check hc hx (Kv.live_eq_some.mp he).1 hjti
    · exact keep_within hc (.refl _) hx (.of_none rfl rfl rfl) fun p hp => by cases hp
  | del k => cases hs; exact keep_erase hc hx k
  | _ => exact hready.elim

theorem call_db {o : AuthOp} (hready : x.ready (.inr o)) :
    (logic lib).Call i x (.inr o) fun _ _ => True := by
  refine call_of_keep fun now p a w w' hc hx hstep => ?_
  obtain ⟨kv, db⟩ := w
  obtain ⟨kv', db'⟩ := w'
  obtain ⟨hs, hkv⟩ := Store.sum_inr (f := kvStore) (g := authDbStore lib) hstep
  clear hstep
  dsimp only at hs hkv
  subst hkv
  cases o with
  | userFindOne email => cases hs; exact keep_userFindOne hc hx email _
  | userFindById id =>
    obtain ⟨u, -, heq⟩ := Option.map_eq_some_iff.mp hs
    cases heq
    exact keep_userFindById hc hx id _
  | bcryptCompare plain hash =>
    cases hs
    show Keep _ _ x (x.afterDb (.bcryptCompare plain hash) (lib.compare plain hash))
    rw [afterDb_bcryptCompare]
    exact keep_same hc (.refl _) hx
  | randomUUID =>
    obtain ⟨hnew, rfl⟩ := randomUUID_new hs
    exact keep_uuid hc hx hnew
  | jwtSign payload secret ttl =>
    simp only [authDbStore] at hs
    split at hs
    · cases hs
    · rename_i hnew
      cases hs
      show Keep _ _ x (x.afterDb (.jwtSign payload secret ttl) p)
      rw [afterDb_jwtSign]
      refine keep_sign hc hx hready fun d hd hsecret htoken => ?_
      by_contra hne
      exact (not_or.mp hnew).2 ⟨d, hd, hsecret, htoken, hne⟩
  | jwtVerify token secret =>
    cases hs
    refine keep_jwtVerify hc hx fun p hp => ?_
    obtain ⟨⟨sec, tok, pay, ex⟩, hd, hpay⟩ := Option.map_eq_some_iff.mp hp
    have hmem := List.mem_of_find?_eq_some hd
    have hfound := List.find?_some hd
    simp only [decide_eq_true_eq] at hfound
    obtain ⟨rfl, rfl, -⟩ := hfound
    obtain rfl : sec = .JWT_REFRESH_SECRET := hready
    cases hpay
    exact ⟨ex, hmem⟩

theorem safe_authProg (env : AuthEnv) (r : AuthReq) :
    (logic lib).Safe i (authProg env r) .start (Rotates r) :=
  (follows_authProg env r).safe fun _ o hready => by
    cases o with
    | inl o => exact call_kv hready
    | inr o => exact call_db hready

end Families

open Families in
theorem families_outline (env : AuthEnv) (lib : AuthLib) (n : Nat) (users : List User) :
    (authSystem env lib).Outline (fun _ _ => True) (freshAuth n users) (logic lib)
      (fun _ _ => .start) fun _ r => Rotates r where
  store := rfl
  start := by
    refine ⟨rfl, ⟨fun k e he => ?_, fun d hd => ?_, fun t p ht => ?_⟩, .zero⟩
    · cases he
    · cases hd
    · obtain ⟨ex, ht⟩ := ht
      cases ht
  arrive := by
    intro c r w _ _ hacc hinv
    cases hacc
    obtain ⟨hc, hbag⟩ := hinv
    have hstart : ∀ y : Phase, Apart .start y := fun y =>
      ⟨⟨nofun, nofun⟩, ⟨fun n _ => ⟨nofun, nofun⟩, fun k _ => ⟨nofun, nofun⟩⟩⟩
    refine ⟨⟨hc, Bag.singleton_add.mpr ⟨?_, fun y _ => hstart y, hbag⟩⟩, safe_authProg env r⟩
    exact ⟨nofun, nofun, nofun, nofun⟩
  tick := fun _ _ _ h => h
  env := by
    intro c g e w _ he hinv
    cases he
    obtain ⟨hc, hbag⟩ := hinv
    refine ⟨⟨hc.saved, hc.tokens, hc.families⟩, fun x hx => ?_, hbag.pair⟩
    exact (hbag.each x hx).grow ⟨fun _ _ h => h, fun _ h => h, fun _ h => h⟩
  guard := fun _ _ _ _ _ _ _ _ _ _ _ => trivial

end Flashkart
