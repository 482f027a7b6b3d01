import Flashkart.Async.Logic

/-!
# Async.Typestate

Threads whose account is the state of an automaton.

* `Follows` — whatever its calls answer, the program makes each call in a state that is `ready`
  for it. This speaks of the program alone; `Follows.safe` puts it together with one `Call` fact
  for each kind of call.
* `Bag`     — an invariant of many automata over one shared state: what holds of each (`Good`),
  and of any two (`Apart`).
-/

namespace Async

variable {S T : Sig} {ε Req α β W P L : Type}

section Follows

variable {ready : L → S.Op → Prop} {post : Event S ε → L → L} {l : L}
  {Q Q' : Except ε α → L → Prop}

def Follows (ready : L → S.Op → Prop) (post : Event S ε → L → L) :
    Prog S ε α → L → (Except ε α → L → Prop) → Prop
  | .ret a, l, Q => Q (.ok a) l
  | .throw e, l, Q => Q (.error e) l
  | .call o k, l, Q =>
    ready l o ∧ ∀ time out, Follows ready post (k out) (post ⟨time, o, out⟩ l) Q

theorem Follows.mono {p : Prog S ε α} (h : Follows ready post p l Q)
    (himp : ∀ r l', Q r l' → Q' r l') : Follows ready post p l Q' := by
  induction p generalizing l with
  | ret a => exact himp _ _ h
  | throw e => exact himp _ _ h
  | call o k ih => exact ⟨h.1, fun time out => ih out (h.2 time out)⟩

theorem Follows.of_calls {p : Prog S ε α} (h : p.Calls fun o => ∀ l, ready l o) :
    Follows ready post p l fun _ _ => True := by
  induction p generalizing l with
  | ret a => trivial
  | throw e => trivial
  | call o k ih => exact ⟨h.1 l, fun _ out => ih out (h.2 out)⟩

/-- Calls that a state is ready for, and that leave it as it is. -/
theorem Follows.of_fixed {p : Prog S ε α}
    (h : p.Calls fun o => ready l o ∧ ∀ time out, post ⟨time, o, out⟩ l = l) :
    Follows ready post p l fun _ l' => l' = l := by
  induction p with
  | ret a => exact rfl
  | throw e => exact rfl
  | call o k ih =>
    refine ⟨h.1.1, fun time out => ?_⟩
    rw [h.1.2 time out]
    exact ih out (h.2 out)

theorem follows_bind {p : Prog S ε β} {f : β → Prog S ε α} :
    Follows ready post (p.bind f) l Q ↔ Follows ready post p l fun r l' =>
      match r with
      | .ok b => Follows ready post (f b) l' Q
      | .error e => Q (.error e) l' := by
  induction p generalizing l with
  | ret b => exact Iff.rfl
  | throw e => exact Iff.rfl
  | call o k ih =>
    exact and_congr_right fun _ => forall_congr' fun time => forall_congr' fun out => ih out

theorem follows_tryCatch {p : Prog S ε α} {h : ε → Prog S ε α} :
    Follows ready post (p.tryCatch h) l Q ↔ Follows ready post p l fun r l' =>
      match r with
      | .ok a => Q (.ok a) l'
      | .error e => Follows ready post (h e) l' Q := by
  induction p generalizing l with
  | ret b => exact Iff.rfl
  | throw e => exact Iff.rfl
  | call o k ih =>
    exact and_congr_right fun _ => forall_congr' fun time => forall_congr' fun out => ih out

/-- A computation that makes no call. -/
theorem follows_ofExcept {r : Except ε α} :
    Follows ready post (.ofExcept r : Prog S ε α) l Q ↔ Q r l := by
  cases r with
  | ok a => exact Iff.rfl
  | error e => exact Iff.rfl

theorem follows_op {o : S.Op} {Q : Except ε (S.Ret o) → L → Prop} :
    Follows ready post (Prog.op o : Prog S ε (S.Ret o)) l Q ↔
      ready l o ∧ ∀ time (out : Except ε (S.Ret o)), Q out (post ⟨time, o, out⟩ l) := by
  refine and_congr_right fun _ => forall_congr' fun time => forall_congr' fun out => ?_
  cases out with
  | ok a => exact Iff.rfl
  | error e => exact Iff.rfl

/-- A program over the second of two signatures. -/
theorem follows_inr {ready : L → (S.sum T).Op → Prop} {post : Event (S.sum T) ε → L → L}
    {p : Prog T ε α} :
    Follows ready post (p.inr : Prog (S.sum T) ε α) l Q ↔
      Follows (fun l o => ready l (.inr o)) (fun e => post ⟨e.time, .inr e.op, e.out⟩) p l Q := by
  induction p generalizing l with
  | ret a => exact Iff.rfl
  | throw e => exact Iff.rfl
  | call o k ih =>
    exact and_congr_right fun _ => forall_congr' fun time => forall_congr' fun out => ih out

theorem follows_inl_op {ready : L → (S.sum T).Op → Prop} {post : Event (S.sum T) ε → L → L}
    {o : S.Op} {Q : Except ε (S.Ret o) → L → Prop} :
    Follows ready post ((Prog.op o).inl : Prog (S.sum T) ε (S.Ret o)) l Q ↔
      ready l (.inl o) ∧ ∀ time (out : Except ε (S.Ret o)), Q out (post ⟨time, .inl o, out⟩ l) := by
  refine and_congr_right fun _ => forall_congr' fun time => forall_congr' fun out => ?_
  cases out with
  | ok a => exact Iff.rfl
  | error e => exact Iff.rfl

theorem follows_inr_op {ready : L → (S.sum T).Op → Prop} {post : Event (S.sum T) ε → L → L}
    {o : T.Op} {Q : Except ε (T.Ret o) → L → Prop} :
    Follows ready post ((Prog.op o).inr : Prog (S.sum T) ε (T.Ret o)) l Q ↔
      ready l (.inr o) ∧ ∀ time (out : Except ε (T.Ret o)), Q out (post ⟨time, .inr o, out⟩ l) := by
  refine and_congr_right fun _ => forall_congr' fun time => forall_congr' fun out => ?_
  cases out with
  | ok a => exact Iff.rfl
  | error e => exact Iff.rfl

/-- A program that keeps to its automaton is safe when every call that a state is ready for keeps
the invariant. -/
theorem Follows.safe {G : Type} [AddCommMonoid G] {K : Logic S ε W P L G} {i : Nat}
    {p : Prog S ε α} (h : Follows ready K.post p l Q)
    (hcall : ∀ l o, ready l o → K.Call i l o fun _ _ => True) : K.Safe i p l Q := by
  induction p generalizing l with
  | ret a => exact h
  | throw e => exact h
  | call o k ih =>
    intro s g f out w hinv hg hx
    obtain ⟨h1, h2, -⟩ := hcall l o h.1 s g f out w hinv hg hx
    exact ⟨h1, h2, ih out (h.2 s.now out)⟩

/-- Every thread of a run keeps to the automaton of its request. -/
theorem System.Reachable.follows {P Env : Type} {M : System S ε Req α W P Env}
    {ok : System.Guard S ε Req α W P Env} {c₀ c : Config S ε Req α W} {first : Nat → Req → L}
    {Q : Nat → Req → Except ε α → L → Prop} (h : M.Reachable ok c₀ c) (h0 : c₀.pool = [])
    (hprog : ∀ i r, Follows ready post (M.prog r) (first i r) (Q i r)) :
    ∀ t ∈ c.pool, Follows ready post t.prog (t.account post first) (Q t.id t.req) := by
  refine h.invariant (I := fun c => ∀ t ∈ c.pool,
    Follows ready post t.prog (t.account post first) (Q t.id t.req)) (by simp [h0]) ?_
  intro c a c' _ ih _ hs t ht
  cases a with
  | arrive r =>
    obtain ⟨w, _, rfl⟩ := Option.map_eq_some_iff.mp hs
    rcases List.mem_append.mp ht with ht | ht
    · exact ih t ht
    · rw [List.mem_singleton.mp ht]
      exact hprog _ r
  | call j f =>
    obtain ⟨n, r, o, k, tr, out, w, hp, _, rfl⟩ := callStep_eq_some hs
    rcases List.mem_or_eq_of_mem_set ht with ht | rfl
    · exact ih t ht
    · exact (ih _ (List.mem_of_getElem? hp)).2 c.now out
  | tick d => cases hs; exact ih t ht
  | env e =>
    obtain ⟨w, _, rfl⟩ := Option.map_eq_some_iff.mp hs
    exact ih t ht

/-- What a state says of the calls made before it: if it is so of a state after a call, it was so
before, and the call was of the kind, then all calls of the trace were. -/
theorem System.Reachable.trace_of_state {P Env : Type} {M : System S ε Req α W P Env}
    {ok : System.Guard S ε Req α W P Env} {c₀ c : Config S ε Req α W} {first : Nat → Req → L}
    {Q : Nat → Req → Except ε α → L → Prop} {I : L → Prop} {A : S.Op → Prop}
    (h : M.Reachable ok c₀ c) (h0 : c₀.pool = [])
    (hprog : ∀ i r, Follows ready post (M.prog r) (first i r) (Q i r))
    (hback : ∀ l o time out, ready l o → I (post ⟨time, o, out⟩ l) → I l ∧ A o) :
    ∀ t ∈ c.pool, I (t.account post first) → ∀ e ∈ t.trace, A e.op := by
  refine h.invariant (I := fun c => ∀ t ∈ c.pool, I (t.account post first) →
    ∀ e ∈ t.trace, A e.op) (by simp [h0]) ?_
  intro c a c' hr ih _ hs t ht hopen e he
  cases a with
  | arrive r =>
    obtain ⟨w, _, rfl⟩ := Option.map_eq_some_iff.mp hs
    rcases List.mem_append.mp ht with ht | ht
    · exact ih t ht hopen e he
    · rw [List.mem_singleton.mp ht] at he
      cases he
  | call j f =>
    obtain ⟨n, r, o, k, tr, out, w, hp, _, rfl⟩ := callStep_eq_some hs
    have hu := List.mem_of_getElem? hp
    rcases List.mem_or_eq_of_mem_set ht with ht | rfl
    · exact ih t ht hopen e he
    · obtain ⟨hopen', hkind⟩ := hback _ o _ out (hr.follows h0 hprog _ hu).1 hopen
      rcases List.mem_cons.mp he with rfl | he
      · exact hkind
      · exact ih _ hu hopen' e he
  | tick d => cases hs; exact ih t ht hopen e he
  | env e' =>
    obtain ⟨w, _, rfl⟩ := Option.map_eq_some_iff.mp hs
    exact ih t ht hopen e he

end Follows

/-! ## Bags of automata -/

structure Bag (Good : L → Prop) (Apart : L → L → Prop) (m : Multiset L) : Prop where
  each : ∀ a ∈ m, Good a
  pair : m.Pairwise Apart

namespace Bag

variable {Good Good' : L → Prop} {Apart : L → L → Prop} {a a' : L} {m g : Multiset L}

theorem zero : Bag Good Apart 0 := ⟨fun a ha => absurd ha (Multiset.notMem_zero a),
  Multiset.pairwise_zero _⟩

theorem singleton_add [Std.Symm Apart] :
    Bag Good Apart ({a} + m) ↔ Good a ∧ (∀ b ∈ m, Apart a b) ∧ Bag Good Apart m := by
  induction m using Quot.inductionOn with
  | h l =>
    have hpair : ({a} + (l : Multiset L)).Pairwise Apart ↔
        (∀ b ∈ l, Apart a b) ∧ (l : Multiset L).Pairwise Apart := by
      rw [Multiset.singleton_add, Multiset.cons_coe, Multiset.pairwise_coe_iff_pairwise,
        List.pairwise_cons, Multiset.pairwise_coe_iff_pairwise]
    constructor
    · intro ⟨heach, hp⟩
      obtain ⟨h1, h2⟩ := hpair.mp hp
      exact ⟨heach a (by simp), h1, fun b hb => heach b (Multiset.mem_add.mpr (.inr hb)), h2⟩
    · intro ⟨ha, h1, heach, h2⟩
      refine ⟨fun b hb => ?_, hpair.mpr ⟨h1, h2⟩⟩
      rcases Multiset.mem_add.mp hb with hb | hb
      · rw [Multiset.mem_singleton.mp hb]
        exact ha
      · exact heach b hb

/-- One automaton makes a step: what is to be shown of its new state, and of every other one. -/
theorem step [Std.Symm Apart] (h : Bag Good Apart ({a} + g)) (ha : Good' a')
    (hothers : ∀ b ∈ g, Good b → Apart a b → Good' b ∧ Apart a' b) :
    Bag Good' Apart ({a'} + g) := by
  obtain ⟨-, hapart, heach, hpair⟩ := singleton_add.mp h
  have hboth : ∀ b ∈ g, Good' b ∧ Apart a' b :=
    fun b hb => hothers b hb (heach b hb) (hapart b hb)
  exact singleton_add.mpr ⟨ha, fun b hb => (hboth b hb).2, fun b hb => (hboth b hb).1, hpair⟩

end Bag

/-- Any two threads of a pool are apart when the bag of their accounts is. -/
theorem System.worth_apart {K : Logic S ε W P L (Multiset L)} {first : Nat → Req → L}
    (hval : ∀ l, K.val l = {l}) {pool : List (Thread S ε Req α)} {Apart : L → L → Prop}
    [Std.Symm Apart] (h : (System.worth K first pool).Pairwise Apart) {i j : Nat}
    {t u : Thread S ε Req α} (ht : pool[i]? = some t) (hu : pool[j]? = some u) (hne : i ≠ j) :
    Apart (t.account K.post first) (u.account K.post first) := by
  let account : Thread S ε Req α → L := fun t => t.account K.post first
  have hcoe : System.worth K first pool = (pool.map account : List L) := by
    clear h ht hu
    induction pool with
    | nil => rfl
    | cons v pool ih =>
      have hcons : System.worth K first (v :: pool) = K.val (account v) + System.worth K first pool :=
        List.sum_cons
      rw [hcons, hval, ih, Multiset.singleton_add, List.map_cons, Multiset.cons_coe]
  rw [hcoe, Multiset.pairwise_coe_iff_pairwise, List.pairwise_map] at h
  have hlt : ∀ {i j : Nat} {t u : Thread S ε Req α}, pool[i]? = some t → pool[j]? = some u →
      i < j → Apart (account t) (account u) := by
    intro i j t u ht hu hij
    obtain ⟨hi, rfl⟩ := List.getElem?_eq_some_iff.mp ht
    obtain ⟨hj, rfl⟩ := List.getElem?_eq_some_iff.mp hu
    exact List.pairwise_iff_getElem.mp h i j hi hj hij
  rcases Nat.lt_or_gt_of_ne hne with hij | hji
  · exact hlt ht hu hij
  · exact Std.Symm.symm _ _ (hlt hu ht hji)

end Async
