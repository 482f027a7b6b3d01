import Flashkart.Async.Run
import Flashkart.Async.Collection

/-!
# Async.Logic

Thread-modular proofs about interleaved programs. Every thread keeps an account `l : L`, written
by its own calls only (`post`), and worth `val l` in a commutative monoid `G`. The invariant
relates the shared state to the sum of all accounts. A thread is `Safe` when each of its calls
keeps the invariant whatever the other accounts add up to, and its account at the end satisfies
the postcondition. `adequate`: if every request is safe from its first account on, the invariant
holds in every reachable configuration and every thread in it is still safe; `guaranteed`: every
call keeps to the guarantee of its thread.

The rules follow the shape of a program (`safe_bind`, `safe_tryCatch`, `Safe.op`); what is left of
a proof is one `Call` fact for each kind of call.
-/

namespace Async

variable {S T : Sig} {ε Req α β W V P Env L G : Type}

structure Logic (S : Sig) (ε W P L G : Type) where
  store : Store S W P
  /-- What may be assumed of a call of thread `i` with account `l`, the others summing to `g`. -/
  guard : (i : Nat) → (l : L) → (g : G) → Shared S ε W → S.Op → Fate ε P → Prop
  inv : Shared S ε W → G → Prop
  post : Event S ε → L → L
  val : L → G
  /-- What every call of thread `i` with account `l` keeps to, from the state before it to the
  world after. -/
  guarantee : (i : Nat) → (l : L) → Shared S ε W → S.Op → W → Prop := fun _ _ _ _ _ => True

namespace Logic

/-- `B` holds of an answer, `E` after an error. -/
def Ends (B : α → L → Prop) (E : L → Prop) : Except ε α → L → Prop
  | .ok a, l => B a l
  | .error _, l => E l

@[simp] theorem ends_ok {B : α → L → Prop} {E : L → Prop} {a : α} {l : L} :
    Ends B E (.ok a : Except ε α) l ↔ B a l := Iff.rfl

@[simp] theorem ends_error {B : α → L → Prop} {E : L → Prop} {e : ε} {l : L} :
    Ends B E (.error e : Except ε α) l ↔ E l := Iff.rfl

theorem Ends.mono {B B' : α → L → Prop} {E E' : L → Prop} {out : Except ε α} {l : L}
    (h : Ends B E out l) (hok : ∀ a, B a l → B' a l) (herr : E l → E' l) : Ends B' E' out l := by
  cases out with
  | ok a => exact hok a h
  | error e => exact herr h

variable [AddCommMonoid G] (K : Logic S ε W P L G) (i : Nat)

/-- The call keeps the invariant and to the guarantee, and its answer and the account after it
satisfy `R`. -/
def Call (l : L) (o : S.Op) (R : Except ε (S.Ret o) → L → Prop) : Prop :=
  ∀ s g f out w, K.inv s (K.val l + g) → K.guard i l g s o f →
    K.store.exec s.now i o f s.world = some (out, w) →
    K.inv (s.after i ⟨s.now, o, out⟩ w) (K.val (K.post ⟨s.now, o, out⟩ l) + g) ∧
      K.guarantee i l s o w ∧ R out (K.post ⟨s.now, o, out⟩ l)

def Safe : Prog S ε α → L → (Except ε α → L → Prop) → Prop
  | .ret a, l, Q => Q (.ok a) l
  | .throw e, l, Q => Q (.error e) l
  | .call o k, l, Q => K.Call i l o fun out l' => Safe (k out) l' Q

variable {K i} {l : L} {Q Q' : Except ε α → L → Prop}

theorem Call.mono {o : S.Op} {R R' : Except ε (S.Ret o) → L → Prop} (h : K.Call i l o R)
    (himp : ∀ out l', R out l' → R' out l') : K.Call i l o R' := by
  intro s g f out w hi hg hx
  obtain ⟨h1, h2, h3⟩ := h s g f out w hi hg hx
  exact ⟨h1, h2, himp _ _ h3⟩

/-- A call in a logic that guarantees nothing. -/
theorem call_of {o : S.Op} {R : Except ε (S.Ret o) → L → Prop}
    (hK : ∀ i l s o w, K.guarantee i l s o w)
    (h : ∀ s g f out w, K.inv s (K.val l + g) → K.guard i l g s o f →
      K.store.exec s.now i o f s.world = some (out, w) →
      K.inv (s.after i ⟨s.now, o, out⟩ w) (K.val (K.post ⟨s.now, o, out⟩ l) + g) ∧
        R out (K.post ⟨s.now, o, out⟩ l)) : K.Call i l o R := by
  intro s g f out w hi hg hx
  obtain ⟨h1, h2⟩ := h s g f out w hi hg hx
  exact ⟨h1, hK i l s o w, h2⟩

@[simp] theorem safe_ret {a : α} : K.Safe i (.ret a) l Q ↔ Q (.ok a) l := Iff.rfl

@[simp] theorem safe_throw {e : ε} : K.Safe i (.throw e) l Q ↔ Q (.error e) l := Iff.rfl

theorem Safe.mono {p : Prog S ε α} {l : L} (h : K.Safe i p l Q)
    (himp : ∀ r l', Q r l' → Q' r l') : K.Safe i p l Q' := by
  induction p generalizing l with
  | ret a => exact himp _ _ h
  | throw e => exact himp _ _ h
  | call o k ih => exact Call.mono h fun out l' h' => ih out h'

/-- The rule of sequence: an error ends the whole program, a value goes on to `f`. -/
theorem safe_bind {p : Prog S ε β} {f : β → Prog S ε α} {l : L} :
    K.Safe i (p.bind f) l Q ↔ K.Safe i p l fun r l' =>
      match r with
      | .ok b => K.Safe i (f b) l' Q
      | .error e => Q (.error e) l' := by
  induction p generalizing l with
  | ret b => exact Iff.rfl
  | throw e => exact Iff.rfl
  | call o k ih =>
    constructor
    · exact fun h => Call.mono h fun out l' h' => (ih out).mp h'
    · exact fun h => Call.mono h fun out l' h' => (ih out).mpr h'

theorem safe_tryCatch {p : Prog S ε α} {h : ε → Prog S ε α} {l : L} :
    K.Safe i (p.tryCatch h) l Q ↔ K.Safe i p l fun r l' =>
      match r with
      | .ok a => Q (.ok a) l'
      | .error e => K.Safe i (h e) l' Q := by
  induction p generalizing l with
  | ret b => exact Iff.rfl
  | throw e => exact Iff.rfl
  | call o k ih =>
    constructor
    · exact fun h => Call.mono h fun out l' h' => (ih out).mp h'
    · exact fun h => Call.mono h fun out l' h' => (ih out).mpr h'

/-! The rules for a program that starts with one call: what is known of the call, then what
follows from an answer and from an error. -/

section Calls

variable {KS : Logic (S.sum T) ε W P L G}

theorem safe_inr_op {o : T.Op} {Q : Except ε (T.Ret o) → L → Prop} (h : KS.Call i l (.inr o) Q) :
    KS.Safe i (Prog.op o).inr l Q := by
  refine Call.mono h ?_
  rintro (e | a) l' hq
  · exact hq
  · exact hq

theorem Safe.op {o : S.Op} {f : S.Ret o → Prog S ε α} {R : Except ε (S.Ret o) → L → Prop}
    (h : K.Call i l o R) (hok : ∀ a l', R (.ok a) l' → K.Safe i (f a) l' Q)
    (herr : ∀ e l', R (.error e) l' → Q (.error e) l') : K.Safe i ((Prog.op o).bind f) l Q := by
  refine Call.mono h ?_
  rintro (e | a) l' hr
  · exact herr e l' hr
  · exact hok a l' hr

theorem Safe.inl_op {o : S.Op} {f : S.Ret o → Prog (S.sum T) ε α}
    {R : Except ε (S.Ret o) → L → Prop} (h : KS.Call i l (.inl o) R)
    (hok : ∀ a l', R (.ok a) l' → KS.Safe i (f a) l' Q)
    (herr : ∀ e l', R (.error e) l' → Q (.error e) l') :
    KS.Safe i ((Prog.op o).inl.bind f) l Q := by
  refine Call.mono h ?_
  rintro (e | a) l' hr
  · exact herr e l' hr
  · exact hok a l' hr

theorem Safe.inr_op {o : T.Op} {f : T.Ret o → Prog (S.sum T) ε α}
    {R : Except ε (T.Ret o) → L → Prop} (h : KS.Call i l (.inr o) R)
    (hok : ∀ a l', R (.ok a) l' → KS.Safe i (f a) l' Q)
    (herr : ∀ e l', R (.error e) l' → Q (.error e) l') :
    KS.Safe i ((Prog.op o).inr.bind f) l Q := by
  refine Call.mono h ?_
  rintro (e | a) l' hr
  · exact herr e l' hr
  · exact hok a l' hr

end Calls

/-- A program whose every call keeps `I` of its account. -/
theorem safe_of_calls {p : Prog S ε α} {I : L → Prop}
    (h : p.Calls fun o => ∀ l, I l → K.Call i l o fun _ => I) (hl : I l) :
    K.Safe i p l fun _ => I := by
  induction p generalizing l with
  | ret a => exact hl
  | throw e => exact hl
  | call o k ih => exact Call.mono (h.1 l hl) fun out l' hl' => ih out (h.2 out) hl'

/-- A call that keeps the invariant and leaves every account as it is. -/
def Neutral (K : Logic S ε W P L G) (o : S.Op) : Prop :=
  ∀ i l, K.Call i l o fun _ l' => l' = l

theorem Neutral.keeps {o : S.Op} (h : K.Neutral o) {I : L → Prop} (hl : I l) :
    K.Call i l o fun _ => I :=
  (h i l).mono fun _ _ heq => heq ▸ hl

theorem safe_of_neutral {p : Prog S ε α} (h : p.Calls K.Neutral) :
    K.Safe i p l fun _ l' => l' = l :=
  safe_of_calls (h.mono fun _ ho _ hl => ho.keeps hl) rfl

end Logic

/-! ## The accounts of a pool -/

namespace Thread

/-- The account of a thread: its first one, then one `post` for each call it has made. -/
def account (post : Event S ε → L → L) (first : Nat → Req → L) (t : Thread S ε Req α) : L :=
  t.trace.foldr post (first t.id t.req)

end Thread

namespace System

open Logic

variable [AddCommMonoid G] {M : System S ε Req α W P Env} {ok : Guard S ε Req α W P Env}
  {c₀ c : Config S ε Req α W} {K : Logic S ε W P L G} {first : Nat → Req → L}

/-- What the accounts of the pool, or of all its threads but one, are worth together. -/
def worth (K : Logic S ε W P L G) (first : Nat → Req → L) (pool : List (Thread S ε Req α)) : G :=
  (pool.map fun t => K.val (t.account K.post first)).sum

/-- What must be shown for a proof by accounts: the invariant holds at first and is kept by
arrivals, the clock and the surroundings, a request that arrives is safe, and what the guard of
the run allows is what the guard of the calls assumes. -/
structure Outline (M : System S ε Req α W P Env) (ok : Guard S ε Req α W P Env)
    (c₀ : Config S ε Req α W) (K : Logic S ε W P L G) (first : Nat → Req → L)
    (Q : Nat → Req → Except ε α → L → Prop) : Prop where
  store : K.store = M.store
  start : c₀.pool = [] ∧ K.inv c₀.toShared 0
  arrive : ∀ (c : Config S ε Req α W) r w, M.Reachable ok c₀ c → ok c (.arrive r) →
    M.accept c.now c.pool.length r c.world = some w →
    K.inv c.toShared (worth K first c.pool) →
    K.inv { c.toShared with world := w } (K.val (first c.pool.length r) + worth K first c.pool) ∧
      K.Safe c.pool.length (M.prog r) (first c.pool.length r) (Q c.pool.length r)
  tick : ∀ s g d, K.inv s g → K.inv { s with now := s.now + d } g
  env : ∀ (c : Config S ε Req α W) g e w, ok c (.env e) → M.env c.now e c.world = some w →
    K.inv c.toShared g → K.inv { c.toShared with world := w } g
  guard : ∀ (c : Config S ε Req α W) i f t o k, M.Reachable ok c₀ c → ok c (.call i f) →
    c.pool[i]? = some t → t.prog = .call o k → K.inv c.toShared (worth K first c.pool) →
    K.guard t.id (t.account K.post first) (worth K first (c.pool.eraseIdx i)) c.toShared o f

/-- The same for surroundings that act on the pool: what they do is shown of the accounts there
are. -/
structure PoolOutline (M : System S ε Req α W P Env) (ok : Guard S ε Req α W P Env)
    (c₀ : Config S ε Req α W) (K : Logic S ε W P L G) (first : Nat → Req → L)
    (Q : Nat → Req → Except ε α → L → Prop) : Prop where
  store : K.store = M.store
  start : c₀.pool = [] ∧ K.inv c₀.toShared 0
  arrive : ∀ (c : Config S ε Req α W) r w, M.Reachable ok c₀ c → ok c (.arrive r) →
    M.accept c.now c.pool.length r c.world = some w →
    K.inv c.toShared (worth K first c.pool) →
    K.inv { c.toShared with world := w } (K.val (first c.pool.length r) + worth K first c.pool) ∧
      K.Safe c.pool.length (M.prog r) (first c.pool.length r) (Q c.pool.length r)
  tick : ∀ s g d, K.inv s g → K.inv { s with now := s.now + d } g
  env : ∀ (c : Config S ε Req α W) e w, ok c (.env e) → M.env c.now e c.world = some w →
    K.inv c.toShared (worth K first c.pool) →
    K.inv { c.toShared with world := w } (worth K first c.pool)
  guard : ∀ (c : Config S ε Req α W) i f t o k, M.Reachable ok c₀ c → ok c (.call i f) →
    c.pool[i]? = some t → t.prog = .call o k → K.inv c.toShared (worth K first c.pool) →
    K.guard t.id (t.account K.post first) (worth K first (c.pool.eraseIdx i)) c.toShared o f

theorem Outline.pool {Q : Nat → Req → Except ε α → L → Prop} (O : Outline M ok c₀ K first Q) :
    PoolOutline M ok c₀ K first Q where
  store := O.store
  start := O.start
  arrive := O.arrive
  tick := O.tick
  env := fun c e w hok he h => O.env c _ e w hok he h
  guard := O.guard

/-- What is in a bag that all accounts together are worth is in what one of them is. -/
theorem mem_worth_of {X : Type} {K : Logic S ε W P L (Multiset X)} {first : Nat → Req → L}
    {pool : List (Thread S ε Req α)} {x : X} :
    x ∈ worth K first pool ↔ ∃ t ∈ pool, x ∈ K.val (t.account K.post first) := by
  induction pool with
  | nil => simp [worth]
  | cons t pool ih =>
    have hcons : worth K first (t :: pool) =
        K.val (t.account K.post first) + worth K first pool := List.sum_cons
    rw [hcons, Multiset.mem_add, ih]
    simp

/-- When accounts are worth themselves, all of them together are the bag of the pool's accounts. -/
theorem mem_worth {K : Logic S ε W P L (Multiset L)} {first : Nat → Req → L}
    (hval : ∀ l, K.val l = {l}) {pool : List (Thread S ε Req α)} {a : L} :
    a ∈ worth K first pool ↔ ∃ t ∈ pool, t.account K.post first = a := by
  simp [mem_worth_of, hval, eq_comm]

theorem worth_append (pool : List (Thread S ε Req α)) (t : Thread S ε Req α) :
    worth K first (pool ++ [t]) = K.val (t.account K.post first) + worth K first pool := by
  simp [worth, add_comm]

/-- The account of one thread, and those of all others. -/
theorem worth_split {pool : List (Thread S ε Req α)} {i : Nat} {t : Thread S ε Req α}
    (ht : pool[i]? = some t) :
    worth K first pool = K.val (t.account K.post first) + worth K first (pool.eraseIdx i) :=
  Collection.sum_eq_add_eraseIdx (fun t => K.val (Thread.account K.post first t)) ht

/-- The next call of a thread that is safe. -/
theorem PoolOutline.next {Q : Nat → Req → Except ε α → L → Prop} (O : PoolOutline M ok c₀ K first Q)
    (h : M.Reachable ok c₀ c) {i : Nat} {f : Fate ε P} (hok : ok c (.call i f))
    (hinv : K.inv c.toShared (worth K first c.pool)) {t : Thread S ε Req α}
    (hsafe : K.Safe t.id t.prog (t.account K.post first) (Q t.id t.req)) {o : S.Op}
    {k : Except ε (S.Ret o) → Prog S ε α} {out : Except ε (S.Ret o)} {w : W}
    (ht : c.pool[i]? = some t) (hp : t.prog = .call o k)
    (hx : M.store.exec c.now t.id o f c.world = some (out, w)) :
    K.inv (c.toShared.after t.id ⟨c.now, o, out⟩ w)
        (K.val (K.post ⟨c.now, o, out⟩ (t.account K.post first)) +
          worth K first (c.pool.eraseIdx i)) ∧
      K.guarantee t.id (t.account K.post first) c.toShared o w ∧
      K.Safe t.id (k out) (K.post ⟨c.now, o, out⟩ (t.account K.post first)) (Q t.id t.req) := by
  have hg := O.guard c i f t o k h hok ht hp hinv
  -- the invariant, with the account of thread `i` split off
  have hsplit : K.inv c.toShared (K.val (t.account K.post first) +
      worth K first (c.pool.eraseIdx i)) := by
    rw [← worth_split ht]
    exact hinv
  rw [← O.store] at hx
  rw [hp] at hsafe
  exact hsafe c.toShared _ f out w hsplit hg hx

/-- **Adequacy.** In every reachable configuration the invariant holds of the shared state and of
what all accounts are worth, and every thread is safe from its account on. -/
theorem PoolOutline.adequate {Q : Nat → Req → Except ε α → L → Prop}
    (O : PoolOutline M ok c₀ K first Q) (h : M.Reachable ok c₀ c) :
    K.inv c.toShared (worth K first c.pool) ∧
      ∀ t ∈ c.pool, K.Safe t.id t.prog (t.account K.post first) (Q t.id t.req) := by
  refine h.invariant (I := fun c => K.inv c.toShared (worth K first c.pool) ∧
    ∀ t ∈ c.pool, K.Safe t.id t.prog (t.account K.post first) (Q t.id t.req)) ?_ ?_
  · rw [O.start.1]
    exact ⟨O.start.2, by simp⟩
  intro c a c' hr ⟨hinv, hsafe⟩ hok hs
  cases a with
  | arrive r =>
    simp only [step, Option.map_eq_some_iff] at hs
    obtain ⟨w, hw, rfl⟩ := hs
    obtain ⟨h1, h2⟩ := O.arrive c r w hr hok hw hinv
    refine ⟨by rw [worth_append]; exact h1, ?_⟩
    intro t ht
    rcases List.mem_append.mp ht with ht | ht
    · exact hsafe t ht
    · rw [List.mem_singleton] at ht
      subst ht
      exact h2
  | call i f =>
    obtain ⟨n, r, o, k, tr, out, w, hp, hx, rfl⟩ := callStep_eq_some hs
    obtain ⟨h1, -, h2⟩ := O.next hr hok hinv (hsafe _ (List.mem_of_getElem? hp)) hp rfl hx
    have hlt : i < c.pool.length := (List.getElem?_eq_some_iff.mp hp).1
    refine ⟨?_, ?_⟩
    · rw [worth_split (List.getElem?_set_self hlt), List.eraseIdx_set_eq]
      exact h1
    · intro t ht
      rcases List.mem_or_eq_of_mem_set ht with ht | rfl
      · exact hsafe t ht
      · exact h2
  | tick d => cases hs; exact ⟨O.tick _ _ _ hinv, hsafe⟩
  | env e =>
    simp only [step, Option.map_eq_some_iff] at hs
    obtain ⟨w, hw, rfl⟩ := hs
    exact ⟨O.env c e w hok hw hinv, hsafe⟩

/-- What every call of a run keeps to. -/
theorem PoolOutline.guaranteed {Q : Nat → Req → Except ε α → L → Prop} (O : PoolOutline M ok c₀ K first Q)
    (h : M.Reachable ok c₀ c) {i : Nat} {f : Fate ε P} {c' : Config S ε Req α W}
    (hok : ok c (.call i f)) (hs : M.callStep c i f = some c') :
    ∃ t o, c.pool[i]? = some t ∧ t.prog.next = some o ∧
      K.guarantee t.id (t.account K.post first) c.toShared o c'.world := by
  obtain ⟨n, r, o, k, tr, out, w, hp, hx, rfl⟩ := callStep_eq_some hs
  obtain ⟨hinv, hsafe⟩ := O.adequate h
  exact ⟨_, o, hp, rfl, (O.next h hok hinv (hsafe _ (List.mem_of_getElem? hp)) hp rfl hx).2.1⟩

/-- What a thread that has ended leaves behind. -/
theorem PoolOutline.ended {Q : Nat → Req → Except ε α → L → Prop} (O : PoolOutline M ok c₀ K first Q)
    (h : M.Reachable ok c₀ c) {t : Thread S ε Req α} (ht : t ∈ c.pool) {r : Except ε α}
    (hr : t.prog.result = some r) : Q t.id t.req r (t.account K.post first) := by
  have hs := (O.adequate h).2 t ht
  cases hp : t.prog with
  | ret a => rw [hp] at hs hr; cases hr; exact hs
  | throw e => rw [hp] at hs hr; cases hr; exact hs
  | call o k => rw [hp] at hr; cases hr

/-! The same of an outline whose surroundings know nothing of the pool. -/

theorem Outline.adequate {Q : Nat → Req → Except ε α → L → Prop}
    (O : Outline M ok c₀ K first Q) (h : M.Reachable ok c₀ c) :
    K.inv c.toShared (worth K first c.pool) ∧
      ∀ t ∈ c.pool, K.Safe t.id t.prog (t.account K.post first) (Q t.id t.req) :=
  O.pool.adequate h

theorem Outline.guaranteed {Q : Nat → Req → Except ε α → L → Prop} (O : Outline M ok c₀ K first Q)
    (h : M.Reachable ok c₀ c) {i : Nat} {f : Fate ε P} {c' : Config S ε Req α W}
    (hok : ok c (.call i f)) (hs : M.callStep c i f = some c') :
    ∃ t o, c.pool[i]? = some t ∧ t.prog.next = some o ∧
      K.guarantee t.id (t.account K.post first) c.toShared o c'.world :=
  O.pool.guaranteed h hok hs

theorem Outline.ended {Q : Nat → Req → Except ε α → L → Prop} (O : Outline M ok c₀ K first Q)
    (h : M.Reachable ok c₀ c) {t : Thread S ε Req α} (ht : t ∈ c.pool) {r : Except ε α}
    (hr : t.prog.result = some r) : Q t.id t.req r (t.account K.post first) :=
  O.pool.ended h ht hr

end System
end Async
