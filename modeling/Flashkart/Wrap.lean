import Flashkart.Attempt

/-!
# Flashkart.Wrap

What a wrapped program does, apart from its idempotency key. `Wraps q p`: whatever is answered, the
calls of `p` beside those on the keys are the calls of `q`, in their order, until `p` makes no more
of them. Of a thread that runs `p`, the own calls so far are a run of `q` (`Wraps.runs`).
-/

namespace Flashkart

open Async

variable {S : Sig} {T J α β : Type}

def Wraps : Prog S Err β → IdemProg J S α → Prop
  | _, .ret _ => True
  | _, .throw _ => True
  | q, .call (.inl _) k => ∀ out, Wraps q (k out)
  | q, .call (.inr o) k => ∃ k', q = .call o k' ∧ ∀ out, Wraps (k' out) (k out)

theorem wraps_inr (q : Prog S Err β) : Wraps q (q.inr : IdemProg J S β) := by
  induction q with
  | ret b => trivial
  | throw e => trivial
  | call o k ih => exact ⟨k, rfl, ih⟩

theorem wraps_bind {γ : Type} {q : Prog S Err β} {p : IdemProg J S γ} {f : γ → IdemProg J S α}
    (hp : Wraps q p) (hf : ∀ (q' : Prog S Err β) b, Wraps q' (f b)) : Wraps q (p.bind f) := by
  induction p generalizing q with
  | ret b => exact hf q b
  | throw e => trivial
  | call o k ih =>
    cases o with
    | inl o => exact fun out => ih out (hp out)
    | inr o =>
      obtain ⟨k', rfl, hk⟩ := hp
      exact ⟨k', rfl, fun out => ih out (hk out)⟩

theorem wraps_tryCatch {q : Prog S Err β} {p : IdemProg J S α} {h : Err → IdemProg J S α}
    (hp : Wraps q p) (hh : ∀ (q' : Prog S Err β) e, Wraps q' (h e)) : Wraps q (p.tryCatch h) := by
  induction p generalizing q with
  | ret b => trivial
  | throw e => exact hh q e
  | call o k ih =>
    cases o with
    | inl o => exact fun out => ih out (hp out)
    | inr o =>
      obtain ⟨k', rfl, hk⟩ := hp
      exact ⟨k', rfl, fun out => ih out (hk out)⟩

/-- Calls on the keys come and go between those of `q`. -/
theorem wraps_own {γ : Type} {q : Prog S Err β} {m : Prog (kvSig (Cell J)) Err γ}
    {f : γ → IdemProg J S α} (hf : ∀ b, Wraps q (f b)) :
    Wraps q ((m.inl : IdemProg J S γ).bind f) := by
  induction m with
  | ret b => exact hf b
  | throw e => trivial
  | call o k ih => exact fun out => ih out

theorem wraps_of_own {q : Prog S Err β} {p : IdemProg J S α}
    (h : p.Calls (OnlyReads (S := S))) : Wraps q p := by
  induction p with
  | ret b => trivial
  | throw e => trivial
  | call o k ih =>
    cases o with
    | inl o => exact fun out => ih out (h.2 out)
    | inr o => cases h.1

theorem wraps_withIdempotency (json : Json (StoredResult T) J) (key : String)
    (fn : Prog S Err (StoredResult T)) : Wraps fn (withIdempotency json key fn) := by
  refine wraps_own fun claimed => ?_
  split
  · refine wraps_tryCatch (wraps_bind (wraps_inr fn) fun q' result => ?_) fun q' err => ?_
    · exact wraps_own fun _ => trivial
    · exact wraps_own fun _ => trivial
  · exact wraps_own fun now => wraps_of_own (calls_poll json _ _ _)

/-- An automaton that does not see the calls on the keys: a program keeps to it when what it wraps
does. -/
theorem Wraps.follows {L : Type} {ready : L → ((kvSig (Cell J)).sum S).Op → Prop}
    {post : Event ((kvSig (Cell J)).sum S) Err → L → L} {q : Prog S Err β} {p : IdemProg J S α} {l : L}
    (h : Wraps q p) (hown : ∀ l k, ready l (.inl k) ∧ ∀ time out, post ⟨time, .inl k, out⟩ l = l)
    (hq : Follows (fun l o => ready l (.inr o)) (fun e => post ⟨e.time, .inr e.op, e.out⟩) q l
      fun _ _ => True) : Follows ready post p l fun _ _ => True := by
  induction p generalizing q l with
  | ret b => trivial
  | throw e => trivial
  | call o k ih =>
    cases o with
    | inl o =>
      refine ⟨(hown l o).1, fun time out => ?_⟩
      rw [(hown l o).2 time out]
      exact ih out (h out) hq
    | inr o =>
      obtain ⟨k', rfl, hk⟩ := h
      exact ⟨hq.1, fun time out => ih out (hk out) (hq.2 time out)⟩

/-- The own calls of a program run what it wraps. -/
theorem Wraps.runs {q : Prog S Err β} {p p' : IdemProg J S α}
    {tr : List (Event ((kvSig (Cell J)).sum S) Err)} (h : Wraps q p) (hr : Runs p tr p') :
    ∃ q', Runs q (ownCalls tr) q' ∧ Wraps q' p' := by
  induction hr with
  | start => exact ⟨q, .start, h⟩
  | @call tr o k time out _ ih =>
    obtain ⟨q', hq', hwraps⟩ := ih
    cases o with
    | inl o => exact ⟨q', hq', hwraps out⟩
    | inr o =>
      obtain ⟨k', rfl, hk⟩ := hwraps
      have hcall : ∀ out : Except Err (S.Ret o), Runs q (⟨time, o, out⟩ :: ownCalls tr) (k' out) :=
        fun out => hq'.call time out
      exact ⟨k' out, hcall out, hk out⟩

/-- An own call of a trace, and the calls before it. -/
theorem suffix_of_own {tr : List (Event ((kvSig (Cell J)).sum S) Err)} {e : Event S Err}
    {own : List (Event S Err)} (h : e :: own <:+ ownCalls tr) :
    ∃ tr', ⟨e.time, .inr e.op, e.out⟩ :: tr' <:+ tr ∧ ownCalls tr' = own := by
  induction tr with
  | nil => cases List.suffix_nil.mp h
  | cons ev tr ih =>
    have hold : e :: own <:+ ownCalls tr →
        ∃ tr', ⟨e.time, .inr e.op, e.out⟩ :: tr' <:+ ev :: tr ∧ ownCalls tr' = own := by
      intro h
      obtain ⟨tr', hsuffix, hown⟩ := ih h
      exact ⟨tr', hsuffix.trans (List.suffix_cons _ _), hown⟩
    obtain ⟨time, o, out⟩ := ev
    cases o with
    | inl o => exact hold h
    | inr o =>
      rcases List.suffix_cons_iff.mp h with heq | h
      · cases heq
        exact ⟨tr, List.suffix_refl _, rfl⟩
      · exact hold h

end Flashkart
