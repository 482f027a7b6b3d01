import Flashkart.Async.Prog

/-!
# Async.Run

Interleaving semantics of asynchronous programs over shared stores.

* `Store S W P` — what one call does to the world `W`, atomically. `P` resolves what the store
  is free to choose (a fresh id, which of several documents); `none` says that the call cannot
  happen now or that the choice is not one the store could make.
* `Fate`        — a call is answered, fails without effect, or takes effect and loses its answer.
* `System`      — a store, the program each request runs, and what the surroundings may do.
* `step`        — one action: a request arrives, a thread makes its next call, time passes, or
  the surroundings act. Threads are never removed, so the pool is the history of all requests.
* `Reachable`   — the configurations of all runs whose every action the guard `ok` lets through.
-/

namespace Async

abbrev Store (S : Sig) (W P : Type) : Type :=
  (now i : Nat) → (o : S.Op) → P → W → Option (S.Ret o × W)

/-- Two stores side by side. -/
def Store.sum {S T : Sig} {V W P : Type} (f : Store S V P) (g : Store T W P) :
    Store (S.sum T) (V × W) P
  | now, i, .inl o, p, w => (f now i o p w.1).map fun r => (r.1, (r.2, w.2))
  | now, i, .inr o, p, w => (g now i o p w.2).map fun r => (r.1, (w.1, r.2))

inductive Fate (ε P : Type) where
  | answered (p : P)
  | failed (e : ε)
  | lost (e : ε) (p : P)

/-- Whether the call has its effect on the store. -/
def Fate.effective {ε P : Type} : Fate ε P → Bool
  | .failed _ => false
  | _ => true

def Fate.isAnswered {ε P : Type} : Fate ε P → Bool
  | .answered _ => true
  | _ => false

variable {S : Sig} {ε Req α W P Env : Type}

def Store.exec (f : Store S W P) (now i : Nat) (o : S.Op) :
    Fate ε P → W → Option (Except ε (S.Ret o) × W)
  | .answered p, w => (f now i o p w).map fun r => (.ok r.1, r.2)
  | .failed e, w => some (.error e, w)
  | .lost e p, w => (f now i o p w).map fun r => (.error e, r.2)

/-- A call either has the store's effect, and is answered or loses the answer, or has none. -/
theorem Store.exec_cases {f : Store S W P} {now i : Nat} {o : S.Op} {x : Fate ε P} {w w' : W}
    {out : Except ε (S.Ret o)} (h : f.exec now i o x w = some (out, w')) :
    (∃ p a, x = .answered p ∧ f now i o p w = some (a, w') ∧ out = .ok a) ∨
      (∃ e, x = .failed e ∧ w' = w ∧ out = .error e) ∨
      (∃ e p a, x = .lost e p ∧ f now i o p w = some (a, w') ∧ out = .error e) := by
  cases x with
  | answered p =>
    simp only [Store.exec, Option.map_eq_some_iff] at h
    obtain ⟨⟨a, w₁⟩, h, hr⟩ := h
    cases hr
    exact .inl ⟨p, a, rfl, h, rfl⟩
  | failed e => cases h; exact .inr (.inl ⟨e, rfl, rfl, rfl⟩)
  | lost e p =>
    simp only [Store.exec, Option.map_eq_some_iff] at h
    obtain ⟨⟨a, w₁⟩, h, hr⟩ := h
    cases hr
    exact .inr (.inr ⟨e, p, a, rfl, h, rfl⟩)

/-- What the world sees of it: the store's effect, or nothing. -/
theorem Store.exec_effect {f : Store S W P} {now i : Nat} {o : S.Op} {x : Fate ε P} {w w' : W}
    {out : Except ε (S.Ret o)} (h : f.exec now i o x w = some (out, w')) :
    (x.effective = true ∧ ∃ p a, f now i o p w = some (a, w') ∧ ∀ b, out = .ok b → b = a) ∨
      (x.effective = false ∧ w' = w ∧ ∃ e, out = .error e) := by
  rcases Store.exec_cases h with ⟨p, a, rfl, hx, rfl⟩ | ⟨e, rfl, rfl, rfl⟩ | ⟨e, p, a, rfl, hx, rfl⟩
  · exact .inl ⟨rfl, p, a, hx, fun b hb => by cases hb; rfl⟩
  · exact .inr ⟨rfl, rfl, e, rfl⟩
  · exact .inl ⟨rfl, p, a, hx, fun b hb => by cases hb⟩

/-- A call of the second of two stores leaves the first as it is. -/
theorem Store.sum_inr {T : Sig} {V : Type} {f : Store S V P} {g : Store T W P} {now i : Nat}
    {o : T.Op} {p : P} {w w' : V × W} {a : T.Ret o}
    (h : f.sum g now i (.inr o) p w = some (a, w')) :
    g now i o p w.2 = some (a, w'.2) ∧ w'.1 = w.1 := by
  obtain ⟨⟨b, v⟩, hb, hr⟩ := Option.map_eq_some_iff.mp h
  cases hr
  exact ⟨hb, rfl⟩

theorem Store.sum_inl {T : Sig} {V : Type} {f : Store S V P} {g : Store T W P} {now i : Nat}
    {o : S.Op} {p : P} {w w' : V × W} {a : S.Ret o}
    (h : f.sum g now i (.inl o) p w = some (a, w')) :
    f now i o p w.1 = some (a, w'.1) ∧ w'.2 = w.2 := by
  obtain ⟨⟨b, v⟩, hb, hr⟩ := Option.map_eq_some_iff.mp h
  cases hr
  exact ⟨hb, rfl⟩

/-- A call on one of two stores is one of that store, and leaves the other alone. -/
theorem Store.exec_sum_inr {T : Sig} {V : Type} {f : Store S V P} {g : Store T W P} {now i : Nat}
    {o : T.Op} {x : Fate ε P} {w w' : V × W} {out : Except ε (T.Ret o)}
    (h : (f.sum g).exec now i (.inr o) x w = some (out, w')) :
    g.exec now i o x w.2 = some (out, w'.2) ∧ w'.1 = w.1 := by
  have heff : ∀ {p : P} {a : T.Ret o}, f.sum g now i (.inr o) p w = some (a, w') →
      g now i o p w.2 = some (a, w'.2) ∧ w'.1 = w.1 := fun h => sum_inr h
  rcases exec_cases h with ⟨p, a, rfl, hx, rfl⟩ | ⟨e, rfl, rfl, rfl⟩ | ⟨e, p, a, rfl, hx, rfl⟩
  · obtain ⟨h1, h2⟩ := heff hx
    exact ⟨by simp only [exec, h1]; rfl, h2⟩
  · exact ⟨rfl, rfl⟩
  · obtain ⟨h1, h2⟩ := heff hx
    exact ⟨by simp only [exec, h1]; rfl, h2⟩

theorem Store.exec_sum_inl {T : Sig} {V : Type} {f : Store S V P} {g : Store T W P} {now i : Nat}
    {o : S.Op} {x : Fate ε P} {w w' : V × W} {out : Except ε (S.Ret o)}
    (h : (f.sum g).exec now i (.inl o) x w = some (out, w')) :
    f.exec now i o x w.1 = some (out, w'.1) ∧ w'.2 = w.2 := by
  have heff : ∀ {p : P} {a : S.Ret o}, f.sum g now i (.inl o) p w = some (a, w') →
      f now i o p w.1 = some (a, w'.1) ∧ w'.2 = w.2 := fun h => sum_inl h
  rcases exec_cases h with ⟨p, a, rfl, hx, rfl⟩ | ⟨e, rfl, rfl, rfl⟩ | ⟨e, p, a, rfl, hx, rfl⟩
  · obtain ⟨h1, h2⟩ := heff hx
    exact ⟨by simp only [exec, h1]; rfl, h2⟩
  · exact ⟨rfl, rfl⟩
  · obtain ⟨h1, h2⟩ := heff hx
    exact ⟨by simp only [exec, h1]; rfl, h2⟩

/-- A call that was made and how it ended. -/
structure Event (S : Sig) (ε : Type) where
  time : Nat
  op : S.Op
  out : Except ε (S.Ret op)

/-- A request being served. `id` is its place in the pool; `trace` is what it has done so far,
latest call first. -/
structure Thread (S : Sig) (ε Req α : Type) where
  id : Nat
  req : Req
  prog : Prog S ε α
  trace : List (Event S ε)

/-- What all threads see. `log` holds the calls of every thread, latest first. -/
structure Shared (S : Sig) (ε W : Type) where
  now : Nat
  world : W
  log : List (Nat × Event S ε)

structure Config (S : Sig) (ε Req α W : Type) extends Shared S ε W where
  pool : List (Thread S ε Req α)

structure System (S : Sig) (ε Req α W P Env : Type) where
  store : Store S W P
  prog : Req → Prog S ε α
  accept : (now i : Nat) → Req → W → Option W
  env : Nat → Env → W → Option W

inductive Act (ε Req P Env : Type) where
  | arrive (r : Req)
  | call (i : Nat) (f : Fate ε P)
  | tick (d : Nat)
  | env (e : Env)

/-- The call `o` of thread `i` ended with `out` and left the world as `w`. -/
def Shared.after (s : Shared S ε W) (i : Nat) (e : Event S ε) (w : W) : Shared S ε W :=
  { s with world := w, log := (i, e) :: s.log }

@[simp] theorem Shared.after_now (s : Shared S ε W) (i : Nat) (e : Event S ε) (w : W) :
    (s.after i e w).now = s.now := rfl
@[simp] theorem Shared.after_world (s : Shared S ε W) (i : Nat) (e : Event S ε) (w : W) :
    (s.after i e w).world = w := rfl
@[simp] theorem Shared.after_log (s : Shared S ε W) (i : Nat) (e : Event S ε) (w : W) :
    (s.after i e w).log = (i, e) :: s.log := rfl

namespace Config

def init (now : Nat) (w : W) : Config S ε Req α W := ⟨⟨now, w, []⟩, []⟩

/-- The call thread `i` is about to make. -/
def next (c : Config S ε Req α W) (i : Nat) : Option S.Op := (c.pool[i]?).bind fun t => t.prog.next

/-- Every request that has arrived has ended. -/
def Quiet (c : Config S ε Req α W) : Prop := ∀ t ∈ c.pool, t.prog.result ≠ none

end Config

namespace System

/-- Thread `i` makes its next call, and the call ends as `f` says. -/
def callStep (M : System S ε Req α W P Env) (c : Config S ε Req α W) (i : Nat) (f : Fate ε P) :
    Option (Config S ε Req α W) :=
  match c.pool[i]? with
  | some ⟨n, r, .call o k, tr⟩ =>
    (M.store.exec c.now n o f c.world).map fun x =>
      { c.toShared.after n ⟨c.now, o, x.1⟩ x.2 with
        pool := c.pool.set i ⟨n, r, k x.1, ⟨c.now, o, x.1⟩ :: tr⟩ }
  | _ => none

def step (M : System S ε Req α W P Env) (c : Config S ε Req α W) :
    Act ε Req P Env → Option (Config S ε Req α W)
  | .arrive r =>
    (M.accept c.now c.pool.length r c.world).map fun w =>
      { c with world := w, pool := c.pool ++ [⟨c.pool.length, r, M.prog r, []⟩] }
  | .call i f => M.callStep c i f
  | .tick d => some { c with now := c.now + d }
  | .env e => (M.env c.now e c.world).map fun w => { c with world := w }

abbrev Guard (S : Sig) (ε Req α W P Env : Type) : Type :=
  Config S ε Req α W → Act ε Req P Env → Prop

inductive Reachable (M : System S ε Req α W P Env) (ok : Guard S ε Req α W P Env)
    (c₀ : Config S ε Req α W) : Config S ε Req α W → Prop where
  | init : Reachable M ok c₀ c₀
  | step {c c' : Config S ε Req α W} {a : Act ε Req P Env} :
      Reachable M ok c₀ c → ok c a → M.step c a = some c' → Reachable M ok c₀ c'

variable {M : System S ε Req α W P Env} {ok ok' : Guard S ε Req α W P Env}
  {c₀ c c' : Config S ε Req α W}

theorem Reachable.trans (h₁ : M.Reachable ok c₀ c) (h₂ : M.Reachable ok c c') :
    M.Reachable ok c₀ c' := by
  induction h₂ with
  | init => exact h₁
  | step _ hok hs ih => exact .step ih hok hs

theorem Reachable.mono (h : M.Reachable ok c₀ c) (himp : ∀ c a, ok c a → ok' c a) :
    M.Reachable ok' c₀ c := by
  induction h with
  | init => exact .init
  | step _ hok hs ih => exact .step ih (himp _ _ hok) hs

/-- A property of the first configuration that every allowed action keeps holds in all. -/
theorem Reachable.invariant {I : Config S ε Req α W → Prop} (h : M.Reachable ok c₀ c)
    (h0 : I c₀)
    (hstep : ∀ c a c', M.Reachable ok c₀ c → I c → ok c a → M.step c a = some c' → I c') :
    I c := by
  induction h with
  | init => exact h0
  | step hr hok hs ih => exact hstep _ _ _ hr ih hok hs

/-- The actions one after the other; `none` when one of them cannot happen or is not let through
by `ok`. -/
def run (M : System S ε Req α W P Env) (ok : Config S ε Req α W → Act ε Req P Env → Bool)
    (c : Config S ε Req α W) : List (Act ε Req P Env) → Option (Config S ε Req α W)
  | [] => some c
  | a :: as => if ok c a then (M.step c a).bind fun c' => M.run ok c' as else none

theorem Reachable.of_run {ok : Config S ε Req α W → Act ε Req P Env → Bool} :
    ∀ {as : List (Act ε Req P Env)} {c c' : Config S ε Req α W},
      M.run ok c as = some c' → M.Reachable (fun c a => ok c a = true) c c' := by
  intro as
  induction as with
  | nil => intro c c' h; cases h; exact .init
  | cons a as ih =>
    intro c c' h
    simp only [run] at h
    split at h
    · rename_i hok
      obtain ⟨c₁, hs, h⟩ := Option.bind_eq_some_iff.mp h
      exact Reachable.trans (.step .init hok hs) (ih h)
    · cases h

theorem next_eq {i : Nat} {t : Thread S ε Req α} {o : S.Op}
    {k : Except ε (S.Ret o) → Prog S ε α} (h : c.pool[i]? = some t) (hp : t.prog = .call o k) :
    c.next i = some o := by
  simp [Config.next, h, hp, Prog.next]

/-- What a thread's call does: the call its program is at, the store's answer, and the thread
moved on under that answer. -/
theorem callStep_eq_some {i : Nat} {f : Fate ε P} (h : M.callStep c i f = some c') :
    ∃ n r o k tr out w, c.pool[i]? = some ⟨n, r, .call o k, tr⟩ ∧
      M.store.exec c.now n o f c.world = some (out, w) ∧
      c' = { c.toShared.after n ⟨c.now, o, out⟩ w with
        pool := c.pool.set i ⟨n, r, k out, ⟨c.now, o, out⟩ :: tr⟩ } := by
  simp only [callStep] at h
  split at h
  · rename_i n r o k tr hp
    cases hx : M.store.exec c.now n o f c.world with
    | none => rw [hx] at h; cases h
    | some x => rw [hx] at h; cases h; exact ⟨n, r, o, k, tr, x.1, x.2, hp, hx, rfl⟩
  · cases h

/-- A thread makes only such calls as the program of its request. -/
theorem Reachable.calls {A : Req → S.Op → Prop} (hA : ∀ r, (M.prog r).Calls (A r))
    (h : M.Reachable ok c₀ c) (h0 : c₀.pool = []) : ∀ t ∈ c.pool, t.prog.Calls (A t.req) := by
  refine h.invariant (I := fun c => ∀ t ∈ c.pool, t.prog.Calls (A t.req)) (by simp [h0]) ?_
  intro c a c' _ ih _ hs t ht
  cases a with
  | arrive r =>
    simp only [System.step, Option.map_eq_some_iff] at hs
    obtain ⟨w, _, rfl⟩ := hs
    rcases List.mem_append.mp ht with ht | ht
    · exact ih t ht
    · rw [List.mem_singleton.mp ht]
      exact hA r
  | call j f =>
    obtain ⟨n, r, o, k, tr, out, w, hp, _, rfl⟩ := callStep_eq_some hs
    rcases List.mem_or_eq_of_mem_set ht with ht | rfl
    · exact ih t ht
    · exact (ih _ (List.mem_of_getElem? hp)).2 out
  | tick d => cases hs; exact ih t ht
  | env e =>
    simp only [System.step, Option.map_eq_some_iff] at hs
    obtain ⟨w, _, rfl⟩ := hs
    exact ih t ht

/-- So are all the calls it has made. -/
theorem Reachable.traces {A : Req → S.Op → Prop} (hA : ∀ r, (M.prog r).Calls (A r))
    (h : M.Reachable ok c₀ c) (h0 : c₀.pool = []) :
    ∀ t ∈ c.pool, ∀ e ∈ t.trace, A t.req e.op := by
  refine h.invariant (I := fun c => ∀ t ∈ c.pool, ∀ e ∈ t.trace, A t.req e.op) (by simp [h0]) ?_
  intro c a c' hr ih _ hs t ht e he
  cases a with
  | arrive r =>
    obtain ⟨w, _, rfl⟩ := Option.map_eq_some_iff.mp hs
    rcases List.mem_append.mp ht with ht | ht
    · exact ih t ht e he
    · rw [List.mem_singleton.mp ht] at he
      cases he
  | call j f =>
    obtain ⟨n, r, o, k, tr, out, w, hp, _, rfl⟩ := callStep_eq_some hs
    rcases List.mem_or_eq_of_mem_set ht with ht | rfl
    · exact ih t ht e he
    · have hmem := List.mem_of_getElem? hp
      rcases List.mem_cons.mp he with rfl | he
      · exact (hr.calls hA h0 _ hmem).1
      · exact ih _ hmem e he
  | tick d => cases hs; exact ih t ht e he
  | env e' =>
    obtain ⟨w, _, rfl⟩ := Option.map_eq_some_iff.mp hs
    exact ih t ht e he

/-- The thread at place `i` of the pool has id `i`. -/
theorem Reachable.id_eq (h : M.Reachable ok c₀ c) (h0 : c₀.pool = []) :
    ∀ (i : Nat) (t : Thread S ε Req α), c.pool[i]? = some t → t.id = i := by
  let I : Config S ε Req α W → Prop := fun c => ∀ (i : Nat) (t : Thread S ε Req α),
    c.pool[i]? = some t → t.id = i
  refine h.invariant (I := I) (by simp [I, h0]) ?_
  intro c a c' _ ih _ hs i t hi
  cases a with
  | arrive r =>
    simp only [System.step, Option.map_eq_some_iff] at hs
    obtain ⟨w, _, rfl⟩ := hs
    rw [List.getElem?_append] at hi
    split at hi
    · exact ih i t hi
    · rename_i hge
      obtain ⟨h1, rfl⟩ := List.getElem?_eq_some_iff.mp hi
      simp only [List.length_cons, List.length_nil] at h1
      simp; omega
  | call j f =>
    obtain ⟨n, r, o, k, tr, out, w, hp, _, rfl⟩ := callStep_eq_some hs
    rw [List.getElem?_set] at hi
    split at hi
    · rename_i hji
      split at hi
      · cases hi; rw [← hji]; exact ih j ⟨n, r, .call o k, tr⟩ hp
      · cases hi
    · exact ih i t hi
  | tick d => cases hs; exact ih i t hi
  | env e =>
    simp only [System.step, Option.map_eq_some_iff] at hs
    obtain ⟨w, _, rfl⟩ := hs
    exact ih i t hi

/-- The log is the traces of all threads, interleaved: every call in it is one of a thread, and
those of one thread are its trace. -/
theorem Reachable.log_trace (h : M.Reachable ok c₀ c) (h0 : c₀.pool = []) (hl : c₀.log = []) :
    (∀ x ∈ c.log, x.1 < c.pool.length) ∧ ∀ (i : Nat) (t : Thread S ε Req α),
      c.pool[i]? = some t → t.trace = (c.log.filter fun x => x.1 = i).map (·.2) := by
  let I : Config S ε Req α W → Prop := fun c => (∀ x ∈ c.log, x.1 < c.pool.length) ∧
    ∀ (i : Nat) (t : Thread S ε Req α), c.pool[i]? = some t →
      t.trace = (c.log.filter fun x => x.1 = i).map (·.2)
  refine h.invariant (I := I) (by simp [I, h0, hl]) ?_
  intro c a c' hr ih _ hs
  obtain ⟨hown, htrace⟩ := ih
  cases a with
  | arrive r =>
    obtain ⟨w, _, rfl⟩ := Option.map_eq_some_iff.mp hs
    constructor
    · intro x hx
      have := hown x hx
      simp only [List.length_append, List.length_cons, List.length_nil]
      omega
    · intro i t hi
      rw [List.getElem?_append] at hi
      split at hi
      · exact htrace i t hi
      · rename_i hge
        obtain ⟨hlt, rfl⟩ := List.getElem?_eq_some_iff.mp hi
        -- nobody has made a call under the new place yet
        have hnone : (c.log.filter fun x => decide (x.1 = i)) = [] := by
          refine List.filter_eq_nil_iff.mpr fun x hx heq => ?_
          have := hown x hx
          simp only [decide_eq_true_eq] at heq
          omega
        simp [hnone]
  | call j f =>
    obtain ⟨n, r, o, k, tr, out, w, hp, _, rfl⟩ := callStep_eq_some hs
    obtain rfl : n = j := hr.id_eq h0 j _ hp
    have hlt := (List.getElem?_eq_some_iff.mp hp).1
    constructor
    · intro x hx
      rw [List.length_set]
      rcases List.mem_cons.mp hx with rfl | hx
      · exact hlt
      · exact hown x hx
    · intro i t hi
      rw [List.getElem?_set] at hi
      split at hi
      · rename_i hni
        subst hni
        cases hi
        simp [← htrace n _ hp]
      · rename_i hni
        simp [hni, ← htrace i t hi]
  | tick d => cases hs; exact ⟨hown, htrace⟩
  | env e =>
    obtain ⟨w, _, rfl⟩ := Option.map_eq_some_iff.mp hs
    exact ⟨hown, htrace⟩

/-- Every call in the log is one the store made, no later than now. -/
theorem Reachable.executed (h : M.Reachable ok c₀ c) (hl : c₀.log = []) :
    ∀ x ∈ c.log, x.2.time ≤ c.now ∧
      ∃ f w w', M.store.exec x.2.time x.1 x.2.op f w = some (x.2.out, w') := by
  refine h.invariant (I := fun c => ∀ x ∈ c.log, x.2.time ≤ c.now ∧
    ∃ f w w', M.store.exec x.2.time x.1 x.2.op f w = some (x.2.out, w')) (by simp [hl]) ?_
  intro c a c' _ ih _ hs x hx
  cases a with
  | arrive r =>
    obtain ⟨w, _, rfl⟩ := Option.map_eq_some_iff.mp hs
    exact ih x hx
  | call j f =>
    obtain ⟨n, r, o, k, tr, out, w, _, hexec, rfl⟩ := callStep_eq_some hs
    rcases List.mem_cons.mp hx with rfl | hx
    · exact ⟨le_rfl, f, c.world, w, hexec⟩
    · exact ih x hx
  | tick d =>
    cases hs
    exact ⟨Nat.le_add_right_of_le (ih x hx).1, (ih x hx).2⟩
  | env e =>
    obtain ⟨w, _, rfl⟩ := Option.map_eq_some_iff.mp hs
    exact ih x hx

/-- Later on, a thread has made the calls it had made, and a call it has made since is no older
than the configuration. -/
theorem Reachable.later (h : M.Reachable ok c c') : c.now ≤ c'.now ∧ ∀ i : Nat,
    (∀ t, c.pool[i]? = some t →
      ∃ t', c'.pool[i]? = some t' ∧ t'.req = t.req ∧ t.trace <:+ t'.trace) ∧
    ∀ t', c'.pool[i]? = some t' → ∀ e ∈ t'.trace,
      c.now ≤ e.time ∨ ∃ t, c.pool[i]? = some t ∧ t.req = t'.req ∧ e ∈ t.trace := by
  induction h with
  | init =>
    exact ⟨le_rfl, fun i => ⟨fun t ht => ⟨t, ht, rfl, List.suffix_refl _⟩,
      fun t ht e he => .inr ⟨t, ht, rfl, he⟩⟩⟩
  | @step c₁ c₂ a _ _ hs ih =>
    obtain ⟨hnow, ih⟩ := ih
    cases a with
    | arrive r =>
      obtain ⟨w, _, rfl⟩ := Option.map_eq_some_iff.mp hs
      refine ⟨hnow, fun i => ⟨fun t ht => ?_, fun t' ht' e he => ?_⟩⟩
      · obtain ⟨t', ht', hrest⟩ := (ih i).1 t ht
        have hlt := (List.getElem?_eq_some_iff.mp ht').1
        exact ⟨t', by rw [List.getElem?_append_left hlt, ht'], hrest⟩
      · rw [List.getElem?_append] at ht'
        split at ht'
        · exact (ih i).2 t' ht' e he
        · obtain ⟨_, rfl⟩ := List.getElem?_eq_some_iff.mp ht'
          simp at he
    | call j f =>
      obtain ⟨n, r, o, k, tr, out, w, hp, _, rfl⟩ := callStep_eq_some hs
      have hlt := (List.getElem?_eq_some_iff.mp hp).1
      refine ⟨hnow, fun i => ⟨fun t ht => ?_, fun t' ht' e he => ?_⟩⟩
      · obtain ⟨t', ht', hreq, htr⟩ := (ih i).1 t ht
        by_cases hij : j = i
        · subst hij
          obtain rfl := Option.some.inj (hp.symm.trans ht')
          exact ⟨_, List.getElem?_set_self hlt, hreq, htr.trans (List.suffix_cons _ _)⟩
        · exact ⟨t', by rw [List.getElem?_set_ne hij, ht'], hreq, htr⟩
      · by_cases hij : j = i
        · subst hij
          rw [List.getElem?_set_self hlt] at ht'
          cases ht'
          rcases List.mem_cons.mp he with rfl | he
          · exact .inl hnow
          · exact (ih j).2 _ hp e he
        · rw [List.getElem?_set_ne hij] at ht'
          exact (ih i).2 t' ht' e he
    | tick d => cases hs; exact ⟨Nat.le_add_right_of_le hnow, ih⟩
    | env e =>
      obtain ⟨w, _, rfl⟩ := Option.map_eq_some_iff.mp hs
      exact ⟨hnow, ih⟩

/-- A request that has ended stays as it is. -/
theorem Reachable.ended (h : M.Reachable ok c c') {i : Nat} {t : Thread S ε Req α}
    (ht : c.pool[i]? = some t) (hend : t.prog.result ≠ none) : c'.pool[i]? = some t := by
  refine h.invariant (I := fun c => c.pool[i]? = some t) ht ?_
  intro c a c' _ ih _ hs
  cases a with
  | arrive r =>
    obtain ⟨w, _, rfl⟩ := Option.map_eq_some_iff.mp hs
    rw [List.getElem?_append_left (List.getElem?_eq_some_iff.mp ih).1]
    exact ih
  | call j f =>
    obtain ⟨n, r, o, k, tr, out, w, hp, _, rfl⟩ := callStep_eq_some hs
    by_cases hji : j = i
    · subst hji
      obtain rfl := Option.some.inj (hp.symm.trans ih)
      exact absurd rfl hend
    · rw [List.getElem?_set_ne hji]
      exact ih
  | tick d => cases hs; exact ih
  | env e =>
    obtain ⟨w, _, rfl⟩ := Option.map_eq_some_iff.mp hs
    exact ih

end System
end Async
