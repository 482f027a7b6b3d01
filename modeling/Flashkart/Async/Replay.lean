import Flashkart.Async.Typestate

/-!
# Async.Replay

What a program has done by a list of calls. `Runs p tr q`: having made the calls `tr`, latest
first, the program `p` goes on as `q`. A program that has ended has ended in one way only
(`Runs.det`), so `Runs p tr (.throw e)` says that `p` threw `e`. Every thread of a run has come
from the program of its request by its trace (`Reachable.runs`).
-/

namespace Async

variable {S : Sig} {ε α : Type}

inductive Runs (p : Prog S ε α) : List (Event S ε) → Prog S ε α → Prop where
  | start : Runs p [] p
  | call {tr : List (Event S ε)} {o : S.Op} {k : Except ε (S.Ret o) → Prog S ε α}
      (time : Nat) (out : Except ε (S.Ret o)) :
      Runs p tr (.call o k) → Runs p (⟨time, o, out⟩ :: tr) (k out)

theorem Runs.det {p q q' : Prog S ε α} {tr : List (Event S ε)} (h : Runs p tr q)
    (h' : Runs p tr q') : q = q' := by
  induction h generalizing q' with
  | start => cases h'; rfl
  | call time out _ ih =>
    cases h' with
    | call _ _ h' => cases ih h'; rfl

/-- No program both returns and throws. -/
theorem Runs.not_throw {p : Prog S ε α} {tr : List (Event S ε)} {a : α} {e : ε}
    (h : Runs p tr (.ret a)) : ¬Runs p tr (.throw e) := by
  intro h'
  cases h.det h'

/-- A program that keeps to an automaton still does when it has made some of its calls. -/
theorem Runs.follows {L : Type} {ready : L → S.Op → Prop} {post : Event S ε → L → L} {l : L}
    {Q : Except ε α → L → Prop} {p q : Prog S ε α} {tr : List (Event S ε)} (h : Runs p tr q)
    (hp : Follows ready post p l Q) : Follows ready post q (tr.foldr post l) Q := by
  induction h with
  | start => exact hp
  | call time out _ ih => exact ih.2 time out

/-- Before a call the program was at it. -/
theorem Runs.at_call {p q : Prog S ε α} {tr : List (Event S ε)} {e : Event S ε}
    (h : Runs p (e :: tr) q) : ∃ k, Runs p tr (.call e.op k) := by
  cases h with
  | call time out h => exact ⟨_, h⟩

theorem Runs.suffix {p q : Prog S ε α} {tr tr' : List (Event S ε)} (h : Runs p tr q)
    (hs : tr' <:+ tr) : ∃ q', Runs p tr' q' := by
  induction h with
  | start =>
    rw [List.suffix_nil.mp hs]
    exact ⟨p, .start⟩
  | call time out h ih =>
    rcases List.suffix_cons_iff.mp hs with rfl | hs
    · exact ⟨_, h.call time out⟩
    · exact ih hs

variable {Req W P Env : Type} {M : System S ε Req α W P Env}
  {ok : System.Guard S ε Req α W P Env} {c₀ c : Config S ε Req α W}

theorem System.Reachable.runs (h : M.Reachable ok c₀ c) (h0 : c₀.pool = []) :
    ∀ t ∈ c.pool, Runs (M.prog t.req) t.trace t.prog := by
  refine h.invariant (I := fun c => ∀ t ∈ c.pool, Runs (M.prog t.req) t.trace t.prog)
    (by simp [h0]) ?_
  intro c a c' _ ih _ hs t ht
  cases a with
  | arrive r =>
    obtain ⟨w, _, rfl⟩ := Option.map_eq_some_iff.mp hs
    rcases List.mem_append.mp ht with ht | ht
    · exact ih t ht
    · rw [List.mem_singleton.mp ht]
      exact .start
  | call j f =>
    obtain ⟨n, r, o, k, tr, out, w, hp, _, rfl⟩ := System.callStep_eq_some hs
    rcases List.mem_or_eq_of_mem_set ht with ht | rfl
    · exact ih t ht
    · exact (ih _ (List.mem_of_getElem? hp)).call c.now out
  | tick d => cases hs; exact ih t ht
  | env e =>
    obtain ⟨w, _, rfl⟩ := Option.map_eq_some_iff.mp hs
    exact ih t ht

/-- A thread that has made no call is at the start of its program. -/
theorem System.Reachable.prog_eq (h : M.Reachable ok c₀ c) (h0 : c₀.pool = [])
    {t : Thread S ε Req α} (ht : t ∈ c.pool) (hnew : t.trace = []) : t.prog = M.prog t.req := by
  have hruns := h.runs h0 t ht
  rw [hnew] at hruns
  exact hruns.det .start

end Async
