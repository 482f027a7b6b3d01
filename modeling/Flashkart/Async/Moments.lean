import Flashkart.Async.Run

/-!
# Async.Moments

Runs given by the list of their actions, and what was so when. `Moment M ok c₀ as c`: after some of
the actions `as`, the first ones, the configuration is `c`. Each call that a thread has made was
made at a moment of the run (`run_event`).

`effects` lists the calls that the store has executed, with its answers, in their order. A log does
not tell: a call that ended with an error may have had its effect. What is said of a run and its
effects is shown one action at a time (`run_effects`).
-/

namespace Async

/-- A call that took effect, of the thread `thread` that serves `req`, and the store's answer. -/
structure Executed (S : Sig) (Req : Type) where
  thread : Nat
  req : Req
  op : S.Op
  ret : S.Ret op

namespace System

variable {S : Sig} {ε Req α W P Env : Type} {M : System S ε Req α W P Env}
  {ok : Config S ε Req α W → Act ε Req P Env → Bool} {c₀ c c' : Config S ε Req α W}
  {as bs : List (Act ε Req P Env)}

theorem run_append :
    M.run ok c (as ++ bs) = (M.run ok c as).bind fun c' => M.run ok c' bs := by
  induction as generalizing c with
  | nil => rfl
  | cons a as ih =>
    simp only [List.cons_append, run]
    split
    · rw [Option.bind_assoc]
      exact congrArg _ (funext fun c' => ih)
    · rfl

/-- The last action of a run. -/
theorem run_concat {a : Act ε Req P Env} :
    M.run ok c (as ++ [a]) = some c' ↔
      ∃ c₁, M.run ok c as = some c₁ ∧ ok c₁ a = true ∧ M.step c₁ a = some c' := by
  rw [run_append, Option.bind_eq_some_iff]
  refine exists_congr fun c₁ => and_congr_right fun _ => ?_
  simp only [run]
  split
  · rename_i hok
    simp [hok]
  · rename_i hok
    simp [hok]

def Moment (M : System S ε Req α W P Env) (ok : Config S ε Req α W → Act ε Req P Env → Bool)
    (c₀ : Config S ε Req α W) (as : List (Act ε Req P Env)) (c : Config S ε Req α W) : Prop :=
  ∃ bs, bs <+: as ∧ M.run ok c₀ bs = some c

theorem Moment.append (h : M.Moment ok c₀ as c) : M.Moment ok c₀ (as ++ bs) c := by
  obtain ⟨as₁, hprefix, hrun⟩ := h
  exact ⟨as₁, hprefix.trans (List.prefix_append _ _), hrun⟩

/-- What holds at first and is kept by every action, of the run so far and where it has come to. -/
theorem run_induction {I : List (Act ε Req P Env) → Config S ε Req α W → Prop}
    (h : M.run ok c₀ as = some c) (h0 : I [] c₀)
    (hstep : ∀ as c a c', M.run ok c₀ as = some c → I as c → ok c a = true →
      M.step c a = some c' → I (as ++ [a]) c') : I as c := by
  induction as using List.reverseRecOn generalizing c with
  | nil =>
    obtain rfl := Option.some.inj h
    exact h0
  | append_singleton as a ih =>
    obtain ⟨c₁, hrun, hok, hs⟩ := run_concat.mp h
    exact hstep as c₁ a c hrun (ih hrun) hok hs

/-- A call `e` that a thread made after `tr`: the moment of the run at which it did. -/
theorem run_event (h : M.run ok c₀ as = some c) (h0 : c₀.pool = []) {i : Nat}
    {t : Thread S ε Req α} (ht : c.pool[i]? = some t) {e : Event S ε} {tr : List (Event S ε)}
    (he : e :: tr <:+ t.trace) :
    ∃ c₁ f u w, M.Moment ok c₀ as c₁ ∧ ok c₁ (.call i f) = true ∧ c₁.pool[i]? = some u ∧
      u.req = t.req ∧ u.trace = tr ∧ u.prog.next = some e.op ∧
      M.store.exec c₁.now u.id e.op f c₁.world = some (e.out, w) := by
  induction as using List.reverseRecOn generalizing c t with
  | nil =>
    cases h
    rw [h0] at ht
    cases ht
  | append_singleton as a ih =>
    obtain ⟨c₁, hrun, hok, hs⟩ := run_concat.mp h
    -- what the thread had done before this action
    have hold : c₁.pool[i]? = some t → ∃ c₁ f u w, M.Moment ok c₀ (as ++ [a]) c₁ ∧
        ok c₁ (.call i f) = true ∧ c₁.pool[i]? = some u ∧ u.req = t.req ∧ u.trace = tr ∧
        u.prog.next = some e.op ∧ M.store.exec c₁.now u.id e.op f c₁.world = some (e.out, w) := by
      intro ht
      obtain ⟨c₂, f, u, w, hmoment, hrest⟩ := ih hrun ht he
      exact ⟨c₂, f, u, w, hmoment.append, hrest⟩
    cases a with
    | arrive r =>
      obtain ⟨w, _, rfl⟩ := Option.map_eq_some_iff.mp hs
      rw [List.getElem?_append] at ht
      split at ht
      · exact hold ht
      · obtain ⟨_, rfl⟩ := List.getElem?_eq_some_iff.mp ht
        simp at he
    | call j f =>
      obtain ⟨n, r, o, k, tr', out, w, hp, hx, rfl⟩ := callStep_eq_some hs
      by_cases hji : j = i
      · subst hji
        rw [List.getElem?_set_self (List.getElem?_eq_some_iff.mp hp).1] at ht
        cases ht
        rcases List.suffix_cons_iff.mp he with heq | he
        · cases heq
          exact ⟨c₁, f, _, w, ⟨as, List.prefix_append _ _, hrun⟩, hok, hp, rfl, rfl, rfl, hx⟩
        · obtain ⟨c₂, f, u, w, hmoment, hrest⟩ := ih hrun hp he
          exact ⟨c₂, f, u, w, hmoment.append, hrest⟩
      · exact hold (by rwa [List.getElem?_set_ne hji] at ht)
    | tick d => cases hs; exact hold ht
    | env e =>
      obtain ⟨w, _, rfl⟩ := Option.map_eq_some_iff.mp hs
      exact hold ht

/-- What holds of a request when it arrives, and every action keeps, holds of each that has. -/
theorem Reachable.arrived {ok : Guard S ε Req α W P Env} {K : Req → W → Prop}
    (h : M.Reachable ok c₀ c) (h0 : c₀.pool = [])
    (harrive : ∀ c r c', ok c (.arrive r) → M.step c (.arrive r) = some c' → K r c'.world)
    (hkept : ∀ c a c' r, M.Reachable ok c₀ c → M.step c a = some c' → K r c.world → K r c'.world) :
    ∀ t ∈ c.pool, K t.req c.world := by
  refine h.invariant (I := fun c => ∀ t ∈ c.pool, K t.req c.world) (by simp [h0]) ?_
  intro c a c' hr ih hok hs t ht
  have hold : ∀ u ∈ c.pool, u.req = t.req → K t.req c'.world := fun u hu hreq =>
    hkept _ _ _ _ hr hs (hreq ▸ ih u hu)
  cases a with
  | arrive r =>
    have hnew := harrive _ _ _ hok hs
    obtain ⟨w, _, rfl⟩ := Option.map_eq_some_iff.mp hs
    rcases List.mem_append.mp ht with ht | ht
    · exact hold t ht rfl
    · rw [List.mem_singleton.mp ht]
      exact hnew
  | call j f =>
    obtain ⟨n, r, o, k, tr, out, w, hp, _, rfl⟩ := callStep_eq_some hs
    rcases List.mem_or_eq_of_mem_set ht with ht | rfl
    · exact hold t ht rfl
    · exact hold _ (List.mem_of_getElem? hp) rfl
  | tick d =>
    refine hold t ?_ rfl
    cases hs
    exact ht
  | env e =>
    refine hold t ?_ rfl
    obtain ⟨w, _, rfl⟩ := Option.map_eq_some_iff.mp hs
    exact ht

/-- What a call leaves behind, and every action keeps, is there for each call that was made. -/
theorem Reachable.established {ok : Guard S ε Req α W P Env} {K : Event S ε → W → Prop}
    (h : M.Reachable ok c₀ c) (h0 : c₀.pool = [])
    (hmade : ∀ now i op f w out w', M.store.exec now i op f w = some (out, w') →
      K ⟨now, op, out⟩ w')
    (hkept : ∀ c a c' e, M.Reachable ok c₀ c → M.step c a = some c' → K e c.world → K e c'.world) :
    ∀ t ∈ c.pool, ∀ e ∈ t.trace, K e c.world := by
  refine h.invariant (I := fun c => ∀ t ∈ c.pool, ∀ e ∈ t.trace, K e c.world) (by simp [h0]) ?_
  intro c a c' hr ih _ hs t ht e he
  cases a with
  | arrive r =>
    obtain ⟨w, _, rfl⟩ := Option.map_eq_some_iff.mp hs
    rcases List.mem_append.mp ht with ht | ht
    · exact hkept _ _ _ e hr hs (ih t ht e he)
    · rw [List.mem_singleton.mp ht] at he
      cases he
  | call j f =>
    obtain ⟨n, r, o, k, tr, out, w, hp, hx, rfl⟩ := callStep_eq_some hs
    rcases List.mem_or_eq_of_mem_set ht with ht | rfl
    · exact hkept _ _ _ e hr hs (ih t ht e he)
    · rcases List.mem_cons.mp he with rfl | he
      · exact hmade _ _ _ _ _ _ _ hx
      · exact hkept _ _ _ e hr hs (ih _ (List.mem_of_getElem? hp) e he)
  | tick d => exact hkept _ _ _ e hr hs (by cases hs; exact ih t ht e he)
  | env e' =>
    refine hkept _ _ _ e hr hs (ih t ?_ e he)
    obtain ⟨w, _, rfl⟩ := Option.map_eq_some_iff.mp hs
    exact ht

/-! ## Effects -/

/-- What the call that thread `i` is about to make does to the store, if it is executed. -/
def callEffect (M : System S ε Req α W P Env) (c : Config S ε Req α W) (i : Nat) (p : P) :
    Option (Executed S Req) :=
  match c.pool[i]? with
  | some ⟨n, r, .call o _, _⟩ => (M.store c.now n o p c.world).map fun x => ⟨n, r, o, x.1⟩
  | _ => none

def effect (M : System S ε Req α W P Env) (c : Config S ε Req α W) :
    Act ε Req P Env → Option (Executed S Req)
  | .call i (.answered p) | .call i (.lost _ p) => M.callEffect c i p
  | _ => none

def effects (M : System S ε Req α W P Env) (c : Config S ε Req α W) :
    List (Act ε Req P Env) → List (Executed S Req)
  | [] => []
  | a :: as => (M.effect c a).toList ++ ((M.step c a).map fun c' => M.effects c' as).getD []

theorem effects_concat {a : Act ε Req P Env} (h : M.run ok c as = some c') :
    M.effects c (as ++ [a]) = M.effects c as ++ (M.effect c' a).toList := by
  induction as generalizing c with
  | nil =>
    obtain rfl := Option.some.inj h
    have hend : ((M.step c a).map fun c' => M.effects c' []).getD [] = [] := by
      cases M.step c a <;> rfl
    show (M.effect c a).toList ++ _ = [] ++ (M.effect c a).toList
    rw [hend, List.append_nil, List.nil_append]
  | cons b as ih =>
    simp only [run] at h
    split at h
    · obtain ⟨c₁, hs, hrun⟩ := Option.bind_eq_some_iff.mp h
      rw [List.cons_append, effects, effects, hs, Option.map_some, Option.map_some, Option.getD_some,
        Option.getD_some, ih hrun, List.append_assoc]
    · cases h

/-- A call takes effect, and the store's answer is the one that is listed, or it leaves the world as
it is. -/
theorem effect_call {i n : Nat} {r : Req} {o : S.Op} {k : Except ε (S.Ret o) → Prog S ε α}
    {tr : List (Event S ε)} {f : Fate ε P} {out : Except ε (S.Ret o)} {w : W}
    (hp : c.pool[i]? = some ⟨n, r, .call o k, tr⟩)
    (hx : M.store.exec c.now n o f c.world = some (out, w)) :
    (f.effective = true ∧ ∃ p x, M.store c.now n o p c.world = some (x, w) ∧
        M.effect c (.call i f) = some ⟨n, r, o, x⟩ ∧ ∀ b, out = .ok b → b = x) ∨
      (f.effective = false ∧ w = c.world ∧ M.effect c (.call i f) = none ∧ ∃ e, out = .error e) := by
  have heffect : ∀ {p : P} {x : S.Ret o}, M.store c.now n o p c.world = some (x, w) →
      M.callEffect c i p = some ⟨n, r, o, x⟩ := fun h => by simp only [callEffect, hp, h, Option.map_some]
  rcases Store.exec_cases hx with ⟨p, x, rfl, h, rfl⟩ | ⟨e, rfl, rfl, rfl⟩ | ⟨e, p, x, rfl, h, rfl⟩
  · exact .inl ⟨rfl, p, x, h, heffect h, fun b hb => (Except.ok.inj hb).symm⟩
  · exact .inr ⟨rfl, rfl, rfl, e, rfl⟩
  · exact .inl ⟨rfl, p, x, h, heffect h, fun b hb => by cases hb⟩

/-- What holds of the first configuration without an effect, and is kept by every action with its
effect, holds of a run with its effects. -/
theorem run_effects {I : Config S ε Req α W → List (Executed S Req) → Prop}
    (h : M.run ok c₀ as = some c) (h0 : I c₀ [])
    (hstep : ∀ c es a c', M.Reachable (fun c a => ok c a = true) c₀ c → I c es → ok c a = true →
      M.step c a = some c' → I c' (es ++ (M.effect c a).toList)) : I c (M.effects c₀ as) := by
  refine run_induction (I := fun as c => I c (M.effects c₀ as)) h h0 ?_
  intro as c₁ a c hrun ih hok hs
  rw [effects_concat hrun]
  exact hstep c₁ _ a c (.of_run hrun) ih hok hs

end System
end Async
