import Flashkart.Auth.Families

/-!
# Auth.Revocation

What a revocation is worth. A refresh that is past its check saves its new JTI without looking
whether the family is still there.

* `revoked_for_good` — a revocation that finds no other request between check and save is for good:
  the family never has an active JTI again, and none of its tokens refreshes.
* `revoked_in_vain`  — a logout in the middle of a refresh.
-/

namespace Flashkart

open Async Phase

/-- The action deletes the active JTI under `k`. -/
def deletes (c : AuthConfig) (k : String) : AuthAct → Bool
  | .call i f =>
    match c.next i with
    | some (.inl (.del k')) => k' == k && f.effective && (c.world.1.live c.now k).isSome
    | _ => false
  | _ => false

/-- No request but the one that acts holds the family under `k`. -/
def actsAlone (c : AuthConfig) (k : String) : AuthAct → Bool
  | .call i _ => (c.pool.eraseIdx i).all fun u => (phase u).holds ≠ some k
  | _ => true

/-- From `c` on the family under `k` has no active JTI, and no refresh that arrives with one of its
tokens succeeds. -/
def DeadFrom (env : AuthEnv) (lib : AuthLib) (c : AuthConfig) (k : String) : Prop :=
  ∀ c', (authSystem env lib).Reachable (fun _ _ => True) c c' →
    c'.world.1.live c'.now k = none ∧ ∀ t ∈ c'.pool, c.pool.length ≤ t.id → ∀ token p res,
      t.req = .refresh (some token) → c'.world.2.IsToken token p → familyKey p.sub p.fam = k →
      t.prog.result ≠ some (.ok res)

namespace Revocation

/-- The request can neither save a JTI under `k` nor come to do so. -/
def Idle (k : String) (x : Phase) : Prop := x.holds ≠ some k ∧ x.opens ≠ some k

structure Dead (w : AuthWorld) (k : String) : Prop where
  gone : w.1 k = none
  family : IsFamily w.2.drawn k

variable {w w' : AuthWorld} {x : Phase} {k : String} {lib : AuthLib} {now i : Nat}

theorem idle_over : Idle k .over := ⟨nofun, nofun⟩

/-- What a call does to a dead family: it stays dead, and the request stays idle and does not
rotate it. -/
structure Still (w' : AuthWorld) (k : String) (x x' : Phase) : Prop where
  dead : Dead w' k
  idle : Idle k x'
  rotated : ∀ p, x' = .rotated p → x = .rotated p ∨ p.key ≠ k

theorem still_kv {o : KvOp String} (hw : Dead w k) (hx : Idle k x) (hready : x.ready (.inl o))
    {p : String} {a : o.Ret} (hs : authStore lib now i (.inl o) p w = some (a, w')) :
    Still w' k x (x.afterKv o a) := by
  obtain ⟨kv, db⟩ := w
  obtain ⟨kv', db'⟩ := w'
  obtain ⟨hs, hdb⟩ := Store.sum_inl (f := kvStore) (g := authDbStore lib) hs
  dsimp only at hs hdb
  subst hdb
  cases o with
  | set k' v ex =>
    cases hs
    obtain ⟨hnext, hk⟩ := hready
    have hne : k ≠ k' := by
      rintro rfl
      exact hk.elim hx.1 hx.2
    have hdead : Dead (kv.put k' ⟨v, now + ex * 1000, i⟩, db') k :=
      ⟨(Function.update_of_ne hne _ _).trans hw.gone, hw.family⟩
    cases x with
    | opening u f n => exact ⟨hdead, idle_over, fun q hq => by cases hq⟩
    | rotating q n =>
      refine ⟨hdead, ⟨nofun, nofun⟩, fun q' hq => .inr ?_⟩
      cases hq
      exact fun h => hx.1 (congrArg some h)
    | _ => cases hnext
  | get k' =>
    cases hs
    obtain ⟨q, rfl, rfl⟩ := hready
    simp only [afterKv]
    split
    · rename_i hlive
      obtain ⟨e, he, -⟩ := Option.map_eq_some_iff.mp hlive
      refine ⟨hw, ⟨fun h => ?_, nofun⟩, fun q' hq => by cases hq⟩
      obtain rfl : q.key = k := Option.some.inj h
      exact Option.some_ne_none e ((Kv.live_eq_some.mp he).1.symm.trans hw.gone)
    · exact ⟨hw, idle_over, fun q' hq => by cases hq⟩
  | del k' =>
    cases hs
    refine ⟨⟨?_, hw.family⟩, idle_over, fun q' hq => by cases hq⟩
    cases he : kv.erase k' k with
    | none => exact he
    | some e => exact absurd ((Kv.erase_eq_some.mp he).2.symm.trans hw.gone) (Option.some_ne_none e)
  | _ => exact hready.elim

theorem still_db {o : AuthOp} (hw : Dead w k) (hx : Idle k x)
    {p : String} {a : o.Ret} (hs : authStore lib now i (.inr o) p w = some (a, w')) :
    Still w' k x (x.afterDb o a) := by
  obtain ⟨hdb, hkv⟩ := Store.sum_inr (f := kvStore) (g := authDbStore lib) hs
  obtain ⟨-, hholds, hrotated⟩ := afterDb_passed (o := o) (a := a) (x := x)
  have hgone : w'.1 k = none := by rw [hkv, hw.gone]
  refine ⟨⟨hgone, ?_⟩, ⟨fun h => hx.1 (hholds k h), fun h => ?_⟩, fun q hq => .inl (hrotated q hq)⟩
  · by_cases ho : o = .randomUUID
    · subst ho
      rw [(randomUUID_new hdb).2]
      exact hw.family.mono fun _ h => List.mem_cons_of_mem _ h
    · rw [drawn_eq ho hdb]
      exact hw.family
  · rcases afterDb_opens h with h' | rfl
    · exact hx.2 h'
    · cases x with
      | found u =>
        obtain rfl : familyKey u.toString a = k := Option.some.inj h
        exact not_isFamily (randomUUID_new hdb).1 hw.family
      | _ => exact hx.2 h

/-- A call of any kind, whether it is answered or not. -/
theorem still_call {o : authSig.Op} (hw : Dead w k) (hx : Idle k x) (hready : x.ready o)
    {f : Fate Err String} {out : Except Err (authSig.Ret o)}
    (hs : (authStore lib).exec now i o f w = some (out, w')) : Still w' k x (x.after o out) := by
  have heff : ∀ p a, authStore lib now i o p w = some (a, w') → Still w' k x (x.after o (.ok a)) := by
    intro p a h
    cases o with
    | inl o => exact still_kv hw hx hready h
    | inr o => exact still_db hw hx h
  have hend : ∀ e, Dead w' k → Still w' k x (x.after o (.error e)) := by
    intro e hd
    rw [after_error]
    exact ⟨hd, idle_over, fun q hq => by cases hq⟩
  rcases Store.exec_cases hs with ⟨p, a, rfl, h, rfl⟩ | ⟨e, rfl, rfl, rfl⟩ | ⟨e, p, a, rfl, h, rfl⟩
  · exact heff p a h
  · exact hend e hw
  · exact hend e (heff p a h).dead

/-- What holds from the revocation on, `n` requests having arrived by then. -/
structure Inv (k : String) (n : Nat) (c : AuthConfig) : Prop where
  dead : Dead c.world k
  idle : ∀ t ∈ c.pool, Idle k (phase t)
  late : ∀ t ∈ c.pool, n ≤ t.id → ∀ p, phase t = .rotated p → p.key ≠ k

theorem inv_step {env : AuthEnv} {n : Nat} {c c' : AuthConfig} {a : AuthAct} (h : Inv k n c)
    (hfollows : ∀ t ∈ c.pool, Keeps t.prog (phase t) (Rotates t.req))
    (hs : (authSystem env lib).step c a = some c') : Inv k n c' := by
  cases a with
  | arrive r =>
    cases hs
    refine ⟨h.dead, fun t ht => ?_, fun t ht => ?_⟩
    · rcases List.mem_append.mp ht with ht | ht
      · exact h.idle t ht
      · rw [List.mem_singleton.mp ht]
        exact ⟨nofun, nofun⟩
    · rcases List.mem_append.mp ht with ht | ht
      · exact h.late t ht
      · rw [List.mem_singleton.mp ht]
        exact fun _ _ hp => by cases hp
  | call i f =>
    obtain ⟨m, r, o, kont, tr, out, w, hp, hx, rfl⟩ := System.callStep_eq_some hs
    have hmem := List.mem_of_getElem? hp
    have hstill := still_call h.dead (h.idle _ hmem) (hfollows _ hmem).1 hx
    refine ⟨hstill.dead, fun t ht => ?_, fun t ht hn p hrot => ?_⟩
    · rcases List.mem_or_eq_of_mem_set ht with ht | rfl
      · exact h.idle t ht
      · exact hstill.idle
    · rcases List.mem_or_eq_of_mem_set ht with ht | rfl
      · exact h.late t ht hn p hrot
      · rcases hstill.rotated p hrot with hold | hne
        · exact h.late _ hmem hn p hold
        · exact hne
  | tick d => cases hs; exact ⟨h.dead, h.idle, h.late⟩
  | env users => cases hs; exact ⟨⟨h.dead.gone, h.dead.family⟩, h.idle, h.late⟩

/-- A `DEL` that takes effect. -/
theorem del_effect {key : String} {f : Fate Err String} {out : Except Err Unit}
    (hf : f.effective = true)
    (hx : (authStore lib).exec now i (.inl (.del key)) f w = some (out, w')) :
    w' = (w.1.erase key, w.2) ∧ ∀ x, after (.inl (.del key)) out x = .over := by
  constructor
  · rcases Store.exec_effect hx with ⟨-, p, a, hs, -⟩ | ⟨hf', -⟩
    · obtain ⟨hs, hdb⟩ := Store.sum_inl (f := kvStore) (g := authDbStore lib) hs
      obtain ⟨kv', db'⟩ := w'
      cases hs
      obtain rfl : db' = w.2 := hdb
      rfl
    · rw [hf] at hf'
      cases hf'
  · intro x
    cases out with
    | ok u => rfl
    | error e => exact after_error _ e x

theorem deletes_call {c : AuthConfig} {i : Nat} {f : Fate Err String}
    (h : deletes c k (.call i f) = true) : c.next i = some (.inl (.del k)) ∧ f.effective = true ∧
      ∃ e, c.world.1 k = some e := by
  simp only [deletes] at h
  split at h
  · rename_i key hnext
    obtain ⟨hboth, hlive⟩ := Bool.and_eq_true_iff.mp h
    obtain ⟨hkey, heff⟩ := Bool.and_eq_true_iff.mp hboth
    obtain rfl := eq_of_beq hkey
    obtain ⟨e, he⟩ := Option.isSome_iff_exists.mp hlive
    exact ⟨hnext, heff, e, (Kv.live_eq_some.mp he).1⟩
  · cases h

theorem inv_start {env : AuthEnv} {n : Nat} {users : List User} {c c' : AuthConfig} {a : AuthAct}
    (h : (authSystem env lib).Reachable (fun _ _ => True) (freshAuth n users) c)
    (hdel : deletes c k a = true) (halone : actsAlone c k a = true)
    (hs : (authSystem env lib).step c a = some c') : Inv k c'.pool.length c' := by
  have hids := (System.Reachable.step h trivial hs).id_eq rfl
  obtain ⟨⟨hc, hbag⟩, -⟩ := (families_outline env lib n users).adequate h
  -- nobody has the id of a request that is still to come
  have hlate : ∀ t ∈ c'.pool, c'.pool.length ≤ t.id → ∀ p, phase t = .rotated p → p.key ≠ k := by
    intro t ht hle
    obtain ⟨j, hj⟩ := List.mem_iff_getElem?.mp ht
    have hlt := (List.getElem?_eq_some_iff.mp hj).1
    have hid := hids j t hj
    omega
  cases a with
  | call i f =>
    obtain ⟨hnext, heff, e, he⟩ := deletes_call hdel
    obtain ⟨m, r, o, kont, tr, out, w, hp, hx, rfl⟩ := System.callStep_eq_some hs
    obtain rfl : o = .inl (.del k) := Option.some.inj ((System.next_eq hp rfl).symm.trans hnext)
    obtain ⟨rfl, hover⟩ := del_effect heff hx
    refine ⟨⟨Function.update_self .., (hc.saved k e he).2⟩, fun t ht => ?_, hlate⟩
    obtain ⟨j, hj⟩ := List.mem_iff_getElem?.mp ht
    by_cases hij : i = j
    · subst hij
      obtain rfl : _ = t := Option.some.inj ((List.getElem?_set_self
        (List.getElem?_eq_some_iff.mp hp).1).symm.trans hj)
      show Idle k (after (.inl (.del k)) out _)
      rw [hover]
      exact idle_over
    · have hold : c.pool[j]? = some t := (List.getElem?_set_ne hij).symm.trans hj
      have hother : t ∈ c.pool.eraseIdx i := List.mem_eraseIdx_iff_getElem?.mpr ⟨j, Ne.symm hij, hold⟩
      refine ⟨by simpa using List.all_eq_true.mp halone t hother, fun hopens => ?_⟩
      have hgood := hbag.each (phase t)
        ((System.mem_worth fun _ => rfl).mpr ⟨t, List.mem_of_getElem? hold, rfl⟩)
      have hnone := (hgood.opens k hopens).2
      rw [he] at hnone
      cases hnone
  | _ => cases hdel

end Revocation

/-- **Revocation is for good.** After a revocation that found no other request of the family
between its check and its save, the family is dead, whatever happens. -/
theorem revoked_for_good {env : AuthEnv} {lib : AuthLib} {n : Nat} {users : List User}
    {c c' : AuthConfig} {a : AuthAct} {k : String}
    (h : (authSystem env lib).Reachable (fun _ _ => True) (freshAuth n users) c)
    (hdel : deletes c k a = true) (halone : actsAlone c k a = true)
    (hs : (authSystem env lib).step c a = some c') : DeadFrom env lib c' k := by
  have hstart : (authSystem env lib).Reachable (fun _ _ => True) (freshAuth n users) c' :=
    .step h trivial hs
  have hprog : ∀ (i : Nat) r, Follows Phase.ready Phase.post ((authSystem env lib).prog r) .start
      (Rotates r) := fun _ r => follows_authProg env r
  intro c'' hlater
  have hinv : Revocation.Inv k c'.pool.length c'' := by
    refine hlater.invariant (Revocation.inv_start h hdel halone hs) fun d a' d' hr ih _ hstep => ?_
    exact Revocation.inv_step ih ((hstart.trans hr).follows rfl hprog) hstep
  have hall := hstart.trans hlater
  constructor
  · cases hlive : c''.world.1.live c''.now k with
    | none => rfl
    | some e =>
      have hgone := (Kv.live_eq_some.mp hlive).1.symm.trans hinv.dead.gone
      cases hgone
  · rintro t ht hn token p res hreq htoken rfl hres
    have hout := families_outline env lib n users
    obtain ⟨⟨hc, hbag⟩, -⟩ := hout.adequate hall
    obtain ⟨q, hq, hfrt⟩ := hout.ended hall ht hres (some token) res hreq rfl
    change phase t = .rotated q at hq
    have hgood := hbag.each (phase t) ((System.mem_worth fun _ => rfl).mpr ⟨t, ht, rfl⟩)
    have hqtoken := hgood.shown q (by rw [hq]; rfl)
    rw [← Option.some.inj hfrt] at hqtoken
    refine hinv.late t ht hn q hq ?_
    rw [Presented.key, hc.token_inj hqtoken htoken]

def familyA : String := familyKey userA.id.toString "fam"

/-- The refresh is past its check when the logout revokes the family, and opens it again. -/
def revokedHalfway : List AuthAct :=
  loggedIn ++ .arrive (.refresh (some "rt0")) :: authCalls 1 ["", "", ""] ++
    .arrive (.logout (some "rt0")) :: authCalls 2 [""]

/-- A logout ends the session. -/
theorem revoked_for_good_logout :
    ∃ c c', (authSystem envVars authLib).Reachable (fun _ _ => True) (freshAuth 0 [userA]) c ∧
      (authSystem envVars authLib).step c (.call 1 (.answered "")) = some c' ∧
      DeadFrom envVars authLib c' familyA := by
  have hrun : (((authSystem envVars authLib).run (fun _ _ => true) (freshAuth 0 [userA])
      (loggedIn ++ .arrive (.logout (some "rt0")) :: authCalls 1 [""])).bind fun c =>
        ((authSystem envVars authLib).step c (.call 1 (.answered ""))).map fun _ =>
          (deletes c familyA (.call 1 (.answered "")), actsAlone c familyA (.call 1 (.answered "")))) =
      some (true, true) := by decide
  obtain ⟨c, hc, hs⟩ := Option.bind_eq_some_iff.mp hrun
  obtain ⟨c', hs, heq⟩ := Option.map_eq_some_iff.mp hs
  obtain ⟨hdel, halone⟩ := Prod.mk.inj heq
  have hr : (authSystem envVars authLib).Reachable (fun _ _ => True) (freshAuth 0 [userA]) c :=
    (System.Reachable.of_run hc).mono fun _ _ _ => trivial
  exact ⟨c, c', hr, hs, revoked_for_good hr hdel halone hs⟩

theorem revoked_in_vain :
    ¬∀ c c' a k, (authSystem envVars authLib).Reachable (fun _ _ => True) (freshAuth 0 [userA]) c →
      deletes c k a = true → (authSystem envVars authLib).step c a = some c' →
      DeadFrom envVars authLib c' k := by
  have hrun : (((authSystem envVars authLib).run (fun _ _ => true) (freshAuth 0 [userA])
      revokedHalfway).bind fun c =>
        ((authSystem envVars authLib).step c (.call 2 (.answered ""))).bind fun c' =>
          ((authSystem envVars authLib).run (fun _ _ => true) c'
            (authCalls 1 ["at", "jti1", "rt1", ""])).map fun c'' =>
              (deletes c familyA (.call 2 (.answered "")),
                (c''.world.1.live c''.now familyA).map (·.value))) =
      some (true, some "jti1") := by decide
  obtain ⟨c, hc, hs⟩ := Option.bind_eq_some_iff.mp hrun
  obtain ⟨c', hstep, hs⟩ := Option.bind_eq_some_iff.mp hs
  obtain ⟨c'', hlater, heq⟩ := Option.map_eq_some_iff.mp hs
  obtain ⟨hdel, hlive⟩ := Prod.mk.inj heq
  intro h
  have hdead := h c c' _ familyA ((System.Reachable.of_run hc).mono fun _ _ _ => trivial) hdel hstep
    c'' ((System.Reachable.of_run hlater).mono fun _ _ _ => trivial)
  rw [hdead.1] at hlive
  cases hlive

end Flashkart
