import Flashkart.Async.Run

/-!
# Async.Serial

A program that has the store to itself: all its calls are made one after the other, at one time, and
each is answered.

* `Exec`      — from `w` the program ends with `r` in `w'`.
* `exec`      — the same for given choices of the store; `Exec.of_exec` for runs that are computed.
* `reachable` — in a system, a thread can make its calls in this way.
* `timed`     — the store with a clock that goes on between the calls, so that `Exec` need not stop
  time.
-/

namespace Async

variable {S T : Sig} {ε α β Req V W P Env : Type}

/-- The clock is part of the world: a call is made at the time it shows, and time may pass after
it. -/
def Store.timed (f : Store S W P) : Store S (Nat × W) (Nat × P)
  | _, i, o, p, x => (f x.1 i o p.2 x.2).map fun r => (r.1, (x.1 + p.1, r.2))

inductive Exec (f : Store S W P) (now i : Nat) : Prog S ε α → W → Except ε α → W → Prop where
  | ret {a : α} {w : W} : Exec f now i (.ret a) w (.ok a) w
  | throw {e : ε} {w : W} : Exec f now i (.throw e) w (.error e) w
  | call {o : S.Op} {k : Except ε (S.Ret o) → Prog S ε α} {p : P} {w w₁ w' : W} {a : S.Ret o}
      {r : Except ε α} : f now i o p w = some (a, w₁) → Exec f now i (k (.ok a)) w₁ r w' →
      Exec f now i (.call o k) w r w'

def Prog.exec (f : Store S W P) (now i : Nat) : Prog S ε α → List P → W → Option (Except ε α × W)
  | .ret a, [], w => some (.ok a, w)
  | .throw e, [], w => some (.error e, w)
  | .call o k, p :: ps, w => (f now i o p w).bind fun x => (k (.ok x.1)).exec f now i ps x.2
  | _, _, _ => none

namespace Exec

variable {f : Store S W P} {now i : Nat} {w w' : W}

theorem of_exec {p : Prog S ε α} {ps : List P} {r : Except ε α}
    (h : p.exec f now i ps w = some (r, w')) : Exec f now i p w r w' := by
  induction p generalizing ps w with
  | ret a =>
    cases ps with
    | nil => cases h; exact .ret
    | cons => cases h
  | throw e =>
    cases ps with
    | nil => cases h; exact .throw
    | cons => cases h
  | call o k ih =>
    cases ps with
    | nil => cases h
    | cons p ps =>
      obtain ⟨⟨a, w₁⟩, hx, h⟩ := Option.bind_eq_some_iff.mp h
      exact .call hx (ih _ h)

@[simp] theorem ret_iff {a : α} {r : Except ε α} :
    Exec f now i (.ret a) w r w' ↔ r = .ok a ∧ w' = w := by
  constructor
  · intro h
    cases h
    exact ⟨rfl, rfl⟩
  · rintro ⟨rfl, rfl⟩
    exact .ret

@[simp] theorem throw_iff {e : ε} {r : Except ε α} :
    Exec f now i (.throw e) w r w' ↔ r = .error e ∧ w' = w := by
  constructor
  · intro h
    cases h
    exact ⟨rfl, rfl⟩
  · rintro ⟨rfl, rfl⟩
    exact .throw

theorem call_iff {o : S.Op} {k : Except ε (S.Ret o) → Prog S ε α} {r : Except ε α} :
    Exec f now i (.call o k) w r w' ↔
      ∃ p a w₁, f now i o p w = some (a, w₁) ∧ Exec f now i (k (.ok a)) w₁ r w' := by
  constructor
  · intro h
    cases h with
    | call hx h => exact ⟨_, _, _, hx, h⟩
  · rintro ⟨p, a, w₁, hx, h⟩
    exact .call hx h

theorem bind_iff {p : Prog S ε β} {g : β → Prog S ε α} {r : Except ε α} :
    Exec f now i (p.bind g) w r w' ↔
      (∃ b w₁, Exec f now i p w (.ok b) w₁ ∧ Exec f now i (g b) w₁ r w') ∨
        ∃ e, Exec f now i p w (.error e) w' ∧ r = .error e := by
  induction p generalizing w with
  | ret b =>
    constructor
    · exact fun h => .inl ⟨b, w, .ret, h⟩
    · rintro (⟨b', w₁, hp, h⟩ | ⟨e, hp, -⟩)
      · cases hp
        exact h
      · cases hp
  | throw e =>
    constructor
    · intro h
      obtain ⟨rfl, rfl⟩ := throw_iff.mp h
      exact .inr ⟨e, .throw, rfl⟩
    · rintro (⟨b', w₁, hp, h⟩ | ⟨e', hp, rfl⟩)
      · cases hp
      · cases hp
        exact .throw
  | call o k ih =>
    constructor
    · intro h
      obtain ⟨p, a, w₁, hx, h⟩ := call_iff.mp h
      rcases (ih _).mp h with ⟨b, w₂, hp, h⟩ | ⟨e, hp, rfl⟩
      · exact .inl ⟨b, w₂, .call hx hp, h⟩
      · exact .inr ⟨e, .call hx hp, rfl⟩
    · rintro (⟨b, w₂, hp, h⟩ | ⟨e, hp, rfl⟩)
      · obtain ⟨p, a, w₁, hx, hp⟩ := call_iff.mp hp
        exact .call hx ((ih _).mpr (.inl ⟨b, w₂, hp, h⟩))
      · obtain ⟨p, a, w₁, hx, hp⟩ := call_iff.mp hp
        exact .call hx ((ih _).mpr (.inr ⟨e, hp, rfl⟩))

theorem tryCatch_iff {p : Prog S ε α} {g : ε → Prog S ε α} {r : Except ε α} :
    Exec f now i (p.tryCatch g) w r w' ↔
      (∃ a, Exec f now i p w (.ok a) w' ∧ r = .ok a) ∨
        ∃ e w₁, Exec f now i p w (.error e) w₁ ∧ Exec f now i (g e) w₁ r w' := by
  induction p generalizing w with
  | ret a =>
    constructor
    · intro h
      obtain ⟨rfl, rfl⟩ := ret_iff.mp h
      exact .inl ⟨a, .ret, rfl⟩
    · rintro (⟨a', hp, rfl⟩ | ⟨e, w₁, hp, -⟩)
      · cases hp
        exact .ret
      · cases hp
  | throw e =>
    constructor
    · exact fun h => .inr ⟨e, w, .throw, h⟩
    · rintro (⟨a', hp, -⟩ | ⟨e', w₁, hp, h⟩)
      · cases hp
      · cases hp
        exact h
  | call o k ih =>
    constructor
    · intro h
      obtain ⟨p, a, w₁, hx, h⟩ := call_iff.mp h
      rcases (ih _).mp h with ⟨b, hp, rfl⟩ | ⟨e, w₂, hp, h⟩
      · exact .inl ⟨b, .call hx hp, rfl⟩
      · exact .inr ⟨e, w₂, .call hx hp, h⟩
    · rintro (⟨b, hp, rfl⟩ | ⟨e, w₂, hp, h⟩)
      · obtain ⟨p, a, w₁, hx, hp⟩ := call_iff.mp hp
        exact .call hx ((ih _).mpr (.inl ⟨b, hp, rfl⟩))
      · obtain ⟨p, a, w₁, hx, hp⟩ := call_iff.mp hp
        exact .call hx ((ih _).mpr (.inr ⟨e, w₂, hp, h⟩))

theorem ofExcept_iff {r r' : Except ε α} :
    Exec f now i (.ofExcept r') w r w' ↔ r = r' ∧ w' = w := by
  cases r' with
  | ok a => exact ret_iff
  | error e => exact throw_iff

theorem op_iff {o : S.Op} {k : S.Ret o → Prog S ε α} {r : Except ε α} :
    Exec f now i ((Prog.op o).bind k) w r w' ↔
      ∃ p a w₁, f now i o p w = some (a, w₁) ∧ Exec f now i (k a) w₁ r w' := call_iff

/-- A program that starts with a call, while time passes. -/
theorem timed_op_iff {o : S.Op} {k : S.Ret o → Prog S ε α} {r : Except ε α} {x x' : Nat × W} :
    Exec f.timed now i ((Prog.op o).bind k) x r x' ↔
      ∃ d p a w₁, f x.1 i o p x.2 = some (a, w₁) ∧ Exec f.timed now i (k a) (x.1 + d, w₁) r x' := by
  refine op_iff.trans ⟨?_, ?_⟩
  · rintro ⟨p, a, x₁, hx, h⟩
    obtain ⟨⟨b, w₁⟩, hb, heq⟩ := Option.map_eq_some_iff.mp hx
    cases heq
    exact ⟨p.1, p.2, b, w₁, hb, h⟩
  · rintro ⟨d, p, a, w₁, hx, h⟩
    exact ⟨(d, p), a, (x.1 + d, w₁), by simp only [Store.timed, hx]; rfl, h⟩

theorem timed_call_iff {o : S.Op} {r : Except ε (S.Ret o)} {x x' : Nat × W} :
    Exec f.timed now i (Prog.op o) x r x' ↔
      ∃ d p a w₁, f x.1 i o p x.2 = some (a, w₁) ∧ r = .ok a ∧ x' = (x.1 + d, w₁) := by
  refine call_iff.trans ⟨?_, ?_⟩
  · rintro ⟨p, a, x₁, hx, h⟩
    obtain ⟨⟨b, w₁⟩, hb, heq⟩ := Option.map_eq_some_iff.mp hx
    cases heq
    obtain ⟨rfl, rfl⟩ := ret_iff.mp h
    exact ⟨p.1, p.2, b, w₁, hb, rfl, rfl⟩
  · rintro ⟨d, p, a, w₁, hx, rfl, rfl⟩
    exact ⟨(d, p), a, (x.1 + d, w₁), by simp only [Store.timed, hx]; rfl, .ret⟩

/-- A program that starts with a call of the second of two stores. -/
theorem inr_op_iff {f : Store S V P} {g : Store T W P} {o : T.Op} {k : T.Ret o → Prog (S.sum T) ε α}
    {x x' : V × W} {r : Except ε α} :
    Exec (f.sum g) now i ((Prog.op o).inr.bind k) x r x' ↔
      ∃ p a w₁, g now i o p x.2 = some (a, w₁) ∧ Exec (f.sum g) now i (k a) (x.1, w₁) r x' := by
  refine call_iff.trans ⟨?_, ?_⟩
  · rintro ⟨p, a, x₁, hx, h⟩
    obtain ⟨⟨b, w₁⟩, hb, heq⟩ := Option.map_eq_some_iff.mp hx
    cases heq
    exact ⟨p, b, w₁, hb, h⟩
  · rintro ⟨p, a, w₁, hx, h⟩
    exact ⟨p, a, (x.1, w₁), by simp only [Store.sum, hx]; rfl, h⟩

theorem inl_op_iff {f : Store S V P} {g : Store T W P} {o : S.Op} {k : S.Ret o → Prog (S.sum T) ε α}
    {x x' : V × W} {r : Except ε α} :
    Exec (f.sum g) now i ((Prog.op o).inl.bind k) x r x' ↔
      ∃ p a v₁, f now i o p x.1 = some (a, v₁) ∧ Exec (f.sum g) now i (k a) (v₁, x.2) r x' := by
  refine call_iff.trans ⟨?_, ?_⟩
  · rintro ⟨p, a, x₁, hx, h⟩
    obtain ⟨⟨b, v₁⟩, hb, heq⟩ := Option.map_eq_some_iff.mp hx
    cases heq
    exact ⟨p, b, v₁, hb, h⟩
  · rintro ⟨p, a, v₁, hx, h⟩
    exact ⟨p, a, (v₁, x.2), by simp only [Store.sum, hx]; rfl, h⟩

theorem set_self {l : List α} {j : Nat} {a : α} (h : l[j]? = some a) : l.set j a = l := by
  obtain ⟨hlt, rfl⟩ := List.getElem?_eq_some_iff.mp h
  exact List.set_getElem_self hlt

/-- The thread at place `j` of a system makes its calls without a break. -/
theorem reachable {M : System S ε Req α W P Env} (ok : System.Guard S ε Req α W P Env)
    (hok : ∀ c j p, ok c (.call j (.answered p))) {c : Config S ε Req α W} {p : Prog S ε α}
    {r : Except ε α} (h : Exec M.store c.now i p w r w') {j : Nat} {req : Req}
    {tr : List (Event S ε)} (hw : c.world = w) (hj : c.pool[j]? = some ⟨i, req, p, tr⟩) :
    ∃ c', M.Reachable ok c c' ∧ c'.now = c.now ∧ c'.world = w' ∧ ∃ q tr', q.result = some r ∧
      c'.pool = c.pool.set j ⟨i, req, q, tr'⟩ := by
  generalize hnow : c.now = now at h
  induction h generalizing c tr with
  | @ret a w => exact ⟨c, .init, hnow, hw, .ret a, tr, rfl, (set_self hj).symm⟩
  | @throw e w => exact ⟨c, .init, hnow, hw, .throw e, tr, rfl, (set_self hj).symm⟩
  | @call o k p w w₁ w' a r hx _ ih =>
    subst hw
    have hlt := (List.getElem?_eq_some_iff.mp hj).1
    have hstep : M.step c (.call j (.answered p)) =
        some { c.toShared.after i ⟨c.now, o, .ok a⟩ w₁ with
          pool := c.pool.set j ⟨i, req, k (.ok a), ⟨c.now, o, .ok a⟩ :: tr⟩ } := by
      simp [System.step, System.callStep, hj, Store.exec, hnow, hx]
    have hj' : (c.pool.set j ⟨i, req, k (.ok a), ⟨c.now, o, .ok a⟩ :: tr⟩)[j]? =
        some ⟨i, req, k (.ok a), ⟨c.now, o, .ok a⟩ :: tr⟩ := List.getElem?_set_self hlt
    obtain ⟨c', hr, hn, hw', q, tr', hq, hpool⟩ :=
      ih (c := { c.toShared.after i ⟨c.now, o, .ok a⟩ w₁ with pool := c.pool.set j _ }) rfl hj' hnow
    refine ⟨c', .trans (.step .init (hok c j p) hstep) hr, hn, hw', q, tr', hq, ?_⟩
    rw [hpool]
    exact List.set_set ..

end Exec
end Async
