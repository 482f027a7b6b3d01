import Flashkart.Async.Logic
import Flashkart.Async.Sequential
import Flashkart.Shop.System

/-!
# Shop.Linear

`purchase` against the sequential counter. The counter of a product id is absent at first; whoever
finds it so reads the catalog, sets it if it is still absent, and tries again. The calls here are
any number of purchases under one id string, and of refunds once the counter exists, over a
catalog that does not change.

* `purchase_linearizable` — the answers are those of a counter that starts at the catalog's stock
  and serves one call at a time, in the order of their deciding script calls.
-/

namespace Flashkart

open Async Logic Sequential

inductive CounterReq where
  | purchase (qty : Nat)
  | refund (n : Nat)
  deriving DecidableEq

def counterProg (pid : String) : CounterReq → ShopProg (Option PurchaseResult)
  | .purchase qty => some <$> purchase pid qty
  | .refund n => (fun _ => none) <$> (ShopOp.incrby (stockKey pid) n).call

/-- Quantities are positive, and only a counter that exists is refunded. -/
def counterAccept (pid : String) : CounterReq → Shop → Option Shop
  | .purchase qty, w => if 0 < qty then some w else none
  | .refund n, w => if 0 < n ∧ (w.stock (stockKey pid)).isSome then some w else none

def counterSystem (pid : String) :
    System shopSig Err CounterReq (Option PurchaseResult) Shop Pick Empty where
  store := shopStore
  prog := counterProg pid
  accept := fun _ _ r w => counterAccept pid r w
  env := fun _ e _ => e.elim

/-- No call takes effect and loses its answer. -/
def keepsAnswers : Act Err CounterReq Pick Empty → Bool
  | .call _ (.lost _ _) => false
  | _ => true

/-- The product that the id string finds, if it is on sale. -/
def liveProduct (catalog : ObjectId → Option ProductDoc) (pid : String) : Option ProductDoc :=
  ((castObjectId pid).bind catalog).filter (·.active)

abbrev Decision : Type := CounterOp × Option Int

/-- A script call that found the counter has decided its purchase; so has a refund. -/
def decision : Event shopSig Err → Option Decision
  | ⟨_, .buyStock _ qty, .ok r⟩ =>
    if r = -2 then none else some (.take qty, if r = -1 then none else some r)
  | ⟨_, .incrby _ n, .ok v⟩ => some (.put n, some v)
  | _ => none

/-- What the caller is told. -/
def PurchaseResult.ofAnswer : Option Int → PurchaseResult
  | some remaining => .ok remaining
  | none => .soldOut

/-- The decisions of all calls in their order, each under the call that made it. -/
def decisions (log : List (Nat × Event shopSig Err)) : List (Nat × Decision) :=
  log.reverse.filterMap fun x => (decision x.2).map fun d => (x.1, d)

/-- The decisions of one call. -/
def decisionsOf (i : Nat) (log : List (Nat × Event shopSig Err)) : List Decision :=
  ((decisions log).filter fun x => x.1 = i).map (·.2)

/-- A `SET NX` that created the counter. -/
def primes : Event shopSig Err → Bool
  | ⟨_, .setStockNx .., .ok set⟩ => set
  | _ => false

def CounterReq.op : CounterReq → CounterOp
  | .purchase qty => .take qty
  | .refund n => .put n

/-- The calls of a request on the counter of `pid`. -/
def CounterReq.may : CounterReq → ShopOp → Bool
  | .purchase qty, .buyStock _ n => n = qty
  | .purchase _, .productFindById _ | .purchase _, .setStockNx .. => true
  | .purchase _, .publishStockUpdate .. => true
  | .refund m, .incrby _ n => n = m
  | _, _ => false

section Log

variable {log : List (Nat × Event shopSig Err)} {i : Nat} {e : Event shopSig Err}

theorem decisions_cons :
    decisions ((i, e) :: log) = decisions log ++ ((decision e).map fun d => (i, d)).toList := by
  rw [decisions, List.reverse_cons, List.filterMap_append]
  rfl

theorem decisions_none (h : decision e = none) : decisions ((i, e) :: log) = decisions log := by
  rw [decisions_cons, h]
  simp

theorem decisions_some {d : Decision} (h : decision e = some d) :
    decisions ((i, e) :: log) = decisions log ++ [(i, d)] := by
  rw [decisions_cons, h, Option.map_some, Option.toList_some]

/-- The decisions of a call, read off its own trace. -/
theorem decisionsOf_eq {tr : List (Event shopSig Err)}
    (h : tr = (log.filter fun x => x.1 = i).map (·.2)) :
    decisionsOf i log = (tr.filterMap decision).reverse := by
  subst h
  induction log with
  | nil => rfl
  | cons x log ih =>
    obtain ⟨j, e⟩ := x
    rw [decisionsOf, decisions_cons, List.filter_append, List.map_append]
    rw [decisionsOf] at ih
    rw [ih]
    by_cases hj : j = i
    · cases hd : decision e <;> simp [hj, hd]
    · cases hd : decision e <;> simp [hj]

end Log

namespace Linear

/-- What a call knows: whether the counter exists, and what has been decided for it. -/
structure Acct where
  primed : Bool
  decided : List Decision

def post (e : Event shopSig Err) (l : Acct) : Acct where
  primed := l.primed ||
    match e with
    | ⟨_, .setStockNx .., .ok _⟩ => true
    | _ => false
  decided := (decision e).toList ++ l.decided

/-- 1 for a call that knows that the counter exists. -/
def val (l : Acct) : Nat := if l.primed then 1 else 0

/-- The counter is absent, and nothing has been decided; or it holds what the decisions make of
the catalog's stock. -/
structure Inv (catalog : ObjectId → Option ProductDoc) (pid : String)
    (s : Shared shopSig Err Shop) (g : Nat) : Prop where
  products : s.world.products = catalog
  positive : ∀ x ∈ decisions s.log, ∀ n, x.2.1 = .take n → 0 < n
  absent : s.world.stock (stockKey pid) = none →
    g = 0 ∧ decisions s.log = [] ∧ s.log.countP (primes ·.2) = 0
  present : ∀ v, s.world.stock (stockKey pid) = some v → s.log.countP (primes ·.2) = 1 ∧
    ∃ d, liveProduct catalog pid = some d ∧
      Legal counter d.stock ((decisions s.log).map (·.2)) ∧
      v = final counter d.stock ((decisions s.log).map (·.2))

def logic (catalog : ObjectId → Option ProductDoc) (pid : String) :
    Logic shopSig Err Shop Pick Acct Nat where
  store := shopStore
  guard := fun _ _ _ _ _ f => ∀ e p, f ≠ .lost e p
  inv := Inv catalog pid
  post := post
  val := val

variable {catalog : ObjectId → Option ProductDoc} {pid : String} {i qty : Nat} {l : Acct}
  {s : Shared shopSig Err Shop} {g g' : Nat} {e : Event shopSig Err} {w : Shop}

/-- A call that decides nothing and leaves the counter alone. -/
theorem Inv.after (h : Inv catalog pid s g) (hd : decision e = none) (hp : primes e = false)
    (hproducts : w.products = s.world.products) (hstock : w.stock = s.world.stock)
    (hg : s.world.stock (stockKey pid) = none → g' = g) : Inv catalog pid (s.after i e w) g' := by
  constructor
  · exact hproducts.trans h.products
  · intro x hx
    rw [Shared.after_log, decisions_none hd] at hx
    exact h.positive x hx
  · intro hnone
    rw [Shared.after_world, hstock] at hnone
    rw [Shared.after_log, decisions_none hd, List.countP_cons, hg hnone, hp]
    exact h.absent hnone
  · intro v hv
    rw [Shared.after_world, hstock] at hv
    rw [Shared.after_log, decisions_none hd, List.countP_cons, hp]
    exact h.present v hv

/-- A call that decides: the counter answers as it would alone. -/
theorem Inv.decides (h : Inv catalog pid s g) {d : Decision} {v v' : Int}
    (hd : decision e = some d) (hp : primes e = false) (hpos : ∀ n, d.1 = .take n → 0 < n)
    (hproducts : w.products = s.world.products) (hv : s.world.stock (stockKey pid) = some v)
    (hv' : w.stock (stockKey pid) = some v') (hstep : counter v d.1 = (d.2, v')) :
    Inv catalog pid (s.after i e w) g' := by
  constructor
  · exact hproducts.trans h.products
  · intro x hx
    rw [Shared.after_log, decisions_some hd] at hx
    rcases List.mem_append.mp hx with hx | hx
    · exact h.positive x hx
    · rw [List.mem_singleton.mp hx]
      exact hpos
  · intro hnone
    rw [Shared.after_world, hv'] at hnone
    cases hnone
  · intro u hu
    rw [Shared.after_world, hv'] at hu
    cases hu
    obtain ⟨hone, p, hlive, hlegal, hfinal⟩ := h.present v hv
    rw [Shared.after_log, decisions_some hd, List.countP_cons, hp, List.map_append]
    refine ⟨hone, p, hlive, legal_concat.mpr ⟨hlegal, ?_⟩, ?_⟩
    · rw [← hfinal, hstep]
    · rw [List.map_singleton, final_concat, ← hfinal, hstep]

/-! ## Calls -/

/-- A call of the counter's programs that fails has no effect. -/
theorem call_failed {now : Nat} {o : ShopOp} {f : Fate Err Pick} {w w' : Shop}
    {out : Except Err o.Ret} (hf : ∀ e p, f ≠ .lost e p)
    (hx : shopStore.exec now i o f w = some (out, w')) :
    (∃ p a, shopStore now i o p w = some (a, w') ∧ out = .ok a) ∨ ∃ e, w' = w ∧ out = .error e := by
  rcases Store.exec_cases hx with ⟨p, a, -, h, hout⟩ | ⟨e, -, hw, hout⟩ | ⟨e, p, a, hlost, -, -⟩
  · exact .inl ⟨p, a, h, hout⟩
  · exact .inr ⟨e, hw, hout⟩
  · exact absurd hlost (hf e p)

/-- What the script call of an undecided purchase leaves: it found no counter, or it decided. -/
def Bought (catalog : ObjectId → Option ProductDoc) (pid : String) (qty : Nat) (l : Acct)
    (r : Int) (l' : Acct) : Prop :=
  (r = -2 ∧ l' = l ∧ l.primed = false) ∨
    (r ≠ -2 ∧ l'.decided = [(.take qty, if r = -1 then none else some r)] ∧
      (liveProduct catalog pid).isSome)

theorem call_buy (hqty : 0 < qty) (hl : l.decided = []) :
    (logic catalog pid).Call i l (.buyStock (stockKey pid) qty)
      (Ends (Bought catalog pid qty l) fun _ => True) := by
  refine call_of (fun _ _ _ _ _ => trivial) fun s g f out w hinv hg hx => ?_
  have h : Inv catalog pid s (val l + g) := hinv
  rcases call_failed hg hx with ⟨p, r, hs, rfl⟩ | ⟨e, rfl, rfl⟩
  · cases hs
    rcases BUY_LUA_cases s.world.stock (stockKey pid) qty with
      ⟨hnone, hlua⟩ | ⟨v, hv, hlt, hlua⟩ | ⟨v, hv, hle, hlua⟩
    · -- no counter: nothing is decided
      rw [hlua]
      have hpost : (logic catalog pid).post
          ⟨s.now, .buyStock (stockKey pid) qty, .ok (-2)⟩ l = l := by
        simp [logic, post, decision]
      rw [hpost]
      refine ⟨h.after rfl rfl rfl rfl fun _ => rfl, .inl ⟨rfl, rfl, ?_⟩⟩
      have hzero := (h.absent hnone).1
      by_contra hprimed
      simp only [val, Bool.not_eq_false] at hzero hprimed
      rw [if_pos hprimed] at hzero
      omega
    · rw [hlua]
      obtain ⟨-, d, hlive, -⟩ := h.present v hv
      constructor
      · exact h.decides rfl rfl (fun n hn => by cases hn; exact hqty) rfl hv hv (if_pos hlt)
      · exact .inr ⟨nofun, by simp [logic, post, decision, hl], by simp [hlive]⟩
    · rw [hlua]
      obtain ⟨-, d, hlive, -⟩ := h.present v hv
      have h1 : v - qty ≠ -1 := by omega
      have h2 : v - qty ≠ -2 := by omega
      have hd : decision ⟨s.now, .buyStock (stockKey pid) qty, .ok (v - qty)⟩ =
          some (.take qty, some (v - qty)) := by
        simp only [decision]
        rw [if_neg h2, if_neg h1]
      constructor
      · refine h.decides hd rfl (fun n hn => by cases hn; exact hqty) rfl hv ?_
          (if_neg (by omega))
        exact Function.update_self ..
      · refine .inr ⟨h2, ?_, by simp [hlive]⟩
        rw [if_neg h1]
        simp [logic, post, hd, hl]
  · have hpost : (logic catalog pid).post
        ⟨s.now, .buyStock (stockKey pid) qty, .error e⟩ l = l := by
      simp [logic, post, decision]
    rw [hpost]
    exact ⟨h.after rfl rfl rfl rfl fun _ => rfl, trivial⟩

theorem call_find :
    (logic catalog pid).Call i l (.productFindById pid) fun out l' => l' = l ∧
      ∀ d, out = .ok d → liveProduct catalog pid = d.filter (·.active) := by
  refine call_of (fun _ _ _ _ _ => trivial) fun s g f out w hinv hg hx => ?_
  have h : Inv catalog pid s (val l + g) := hinv
  have hpost : (logic catalog pid).post ⟨s.now, .productFindById pid, out⟩ l = l := by
    simp [logic, post, decision]
  rw [hpost]
  rcases call_failed hg hx with ⟨p, d, hs, rfl⟩ | ⟨e, rfl, rfl⟩
  · obtain ⟨d', hd, hs⟩ := Option.map_eq_some_iff.mp hs
    cases hs
    refine ⟨h.after rfl rfl rfl rfl fun _ => rfl, rfl, ?_⟩
    intro d' heq
    cases heq
    obtain ⟨o, ho, hd⟩ := Option.map_eq_some_iff.mp hd
    rw [liveProduct, ho, Option.bind_some, ← h.products, hd]
  · exact ⟨h.after rfl rfl rfl rfl fun _ => rfl, rfl, nofun⟩

theorem call_prime {d : ProductDoc} (hd : liveProduct catalog pid = some d) :
    (logic catalog pid).Call i l (.setStockNx (stockKey pid) d.stock)
      (Ends (fun _ l' => l' = { l with primed := true }) fun _ => True) := by
  refine call_of (fun _ _ _ _ _ => trivial) fun s g f out w hinv hg hx => ?_
  have h : Inv catalog pid s (val l + g) := hinv
  rcases call_failed hg hx with ⟨p, set, hs, rfl⟩ | ⟨e, rfl, rfl⟩
  · have hpost : (logic catalog pid).post
        ⟨s.now, .setStockNx (stockKey pid) d.stock, .ok set⟩ l = { l with primed := true } := by
      simp [logic, post, decision]
    rw [hpost]
    refine ⟨?_, rfl⟩
    simp only [shopStore] at hs
    split at hs
    · -- somebody was faster: the counter stays as it is
      rename_i v hv
      cases hs
      exact h.after rfl rfl rfl rfl fun hnone => by rw [hnone] at hv; cases hv
    · rename_i hnone
      cases hs
      obtain ⟨-, hnothing, hzero⟩ := h.absent hnone
      have hset : Function.update s.world.stock (stockKey pid) (some (d.stock : Int))
          (stockKey pid) = some (d.stock : Int) := Function.update_self ..
      constructor
      · exact h.products
      · intro x hx
        rw [Shared.after_log, decisions_none rfl, hnothing] at hx
        cases hx
      · intro habsent
        cases hset.symm.trans habsent
      · intro v hv
        cases hset.symm.trans hv
        rw [Shared.after_log, decisions_none rfl, hnothing, List.countP_cons, hzero]
        exact ⟨rfl, d, hd, trivial, rfl⟩
  · have hpost : (logic catalog pid).post
        ⟨s.now, .setStockNx (stockKey pid) d.stock, .error e⟩ l = l := by
      simp [logic, post, decision]
    rw [hpost]
    exact ⟨h.after rfl rfl rfl rfl fun _ => rfl, trivial⟩

theorem call_publish {r : Int} {reason : StockEventReason} :
    (logic catalog pid).Call i l (.publishStockUpdate pid r reason) fun _ l' => l' = l := by
  refine call_of (fun _ _ _ _ _ => trivial) fun s g f out w hinv hg hx => ?_
  have h : Inv catalog pid s (val l + g) := hinv
  have hpost : (logic catalog pid).post ⟨s.now, .publishStockUpdate pid r reason, out⟩ l = l := by
    simp [logic, post, decision]
  rw [hpost]
  rcases call_failed hg hx with ⟨p, a, hs, rfl⟩ | ⟨e, rfl, rfl⟩
  · cases hs
    exact ⟨h.after rfl rfl rfl rfl fun _ => rfl, rfl⟩
  · exact ⟨h.after rfl rfl rfl rfl fun _ => rfl, rfl⟩

theorem call_refund {n : Nat} (hl : l.primed = true) :
    (logic catalog pid).Call i l (.incrby (stockKey pid) n) fun _ _ => True := by
  refine call_of (fun _ _ _ _ _ => trivial) fun s g f out w hinv hg hx => ?_
  have h : Inv catalog pid s (val l + g) := hinv
  obtain ⟨v, hv⟩ : ∃ v, s.world.stock (stockKey pid) = some v := by
    cases hv : s.world.stock (stockKey pid) with
    | some v => exact ⟨v, rfl⟩
    | none =>
      have hzero := (h.absent hv).1
      rw [val, if_pos hl] at hzero
      omega
  refine ⟨?_, trivial⟩
  rcases call_failed hg hx with ⟨p, a, hs, rfl⟩ | ⟨e, rfl, rfl⟩
  · cases hs
    refine h.decides rfl rfl nofun rfl hv (Function.update_self ..) ?_
    simp [counter, hv]
  · have hpost : (logic catalog pid).post ⟨s.now, .incrby (stockKey pid) n, .error e⟩ l = l := by
      simp [logic, post, decision]
    rw [hpost]
    exact h.after rfl rfl rfl rfl fun _ => rfl

/-! ## Requests -/

/-- How a purchase ends: the product is not on sale, or the counter has decided. -/
def Decided (catalog : ObjectId → Option ProductDoc) (pid : String) (qty : Nat) :
    PurchaseResult → Acct → Prop
  | r, l => (r = .notFound ∧ liveProduct catalog pid = none) ∨
      ((liveProduct catalog pid).isSome ∧
        ∃ a, l.decided = [(.take qty, a)] ∧ r = .ofAnswer a)

theorem safe_end {r : Int} (hr : r ≠ -2)
    (hl : l.decided = [(.take qty, if r = -1 then none else some r)])
    (hlive : (liveProduct catalog pid).isSome) :
    (logic catalog pid).Safe i (purchaseResult pid r) l
      (Ends (Decided catalog pid qty) fun _ => True) := by
  unfold purchaseResult
  rw [if_neg hr]
  split
  · rename_i h1
    rw [if_pos h1] at hl
    exact .inr ⟨hlive, none, hl, rfl⟩
  · rename_i h1
    rw [if_neg h1] at hl
    rw [publishStockUpdate, Prog.bind_eq]
    refine safe_bind.mpr (safe_tryCatch.mpr (call_publish.mono ?_))
    intro out l' heq
    subst heq
    cases out <;> exact .inr ⟨hlive, some r, hl, rfl⟩

theorem safe_purchase (hqty : 0 < qty) :
    (logic catalog pid).Safe i (purchase pid qty) ⟨false, []⟩
      (Ends (Decided catalog pid qty) fun _ => True) := by
  rw [purchase, Prog.bind_eq]
  refine .op (call_buy hqty rfl) ?_ fun _ _ _ => trivial
  intro r l₁ h₁
  rcases h₁ with ⟨rfl, rfl, -⟩ | ⟨hr, hl, hlive⟩
  swap
  · rw [if_neg hr]
    exact safe_end hr hl hlive
  rw [if_pos rfl, primeFromMongo, Prog.bind_eq, Prog.bind_eq]
  refine safe_bind.mpr (.op call_find ?_ fun _ _ _ => trivial)
  rintro product l₂ ⟨rfl, hfound⟩
  have hlive := hfound product rfl
  cases product with
  | none => exact .inl ⟨rfl, hlive⟩
  | some d =>
    dsimp only
    split
    · rename_i hactive
      rw [Option.filter_some, if_pos hactive] at hlive
      rw [Prog.bind_eq]
      refine .op (call_prime hlive) ?_ fun _ _ _ => trivial
      rintro set l₃ rfl
      -- the counter exists now, so the second script call decides
      refine .op (call_buy hqty rfl) ?_ fun _ _ _ => trivial
      intro r l₄ h₄
      rcases h₄ with ⟨-, -, hprimed⟩ | ⟨hr, hl, hlive⟩
      · cases hprimed
      · exact safe_end hr hl hlive
    · rename_i hactive
      rw [Option.filter_some, if_neg hactive] at hlive
      exact .inl ⟨rfl, hlive⟩

/-- A refund arrives when the counter exists. -/
def first (_ : Nat) : CounterReq → Acct
  | .purchase _ => ⟨false, []⟩
  | .refund _ => ⟨true, []⟩

def Ended (catalog : ObjectId → Option ProductDoc) (pid : String) (_ : Nat) :
    CounterReq → Except Err (Option PurchaseResult) → Acct → Prop
  | .purchase qty, .ok (some r), l => Decided catalog pid qty r l
  | _, _, _ => True

theorem outline (n : Nat) (catalog : ObjectId → Option ProductDoc) (pid : String) :
    (counterSystem pid).Outline (fun _ a => keepsAnswers a = true)
      (.init n (.fresh catalog)) (logic catalog pid) first (Ended catalog pid) where
  store := rfl
  start := by
    refine ⟨rfl, rfl, nofun, fun _ => ⟨rfl, rfl, rfl⟩, nofun⟩
  arrive := by
    intro c r w hr _ hacc hinv
    have h : Inv catalog pid c.toShared (System.worth (logic catalog pid) first c.pool) := hinv
    cases r with
    | purchase qty =>
      simp only [counterSystem, counterAccept] at hacc
      split at hacc
      · rename_i hqty
        cases hacc
        constructor
        · show Inv catalog pid c.toShared (0 + _)
          rw [Nat.zero_add]
          exact h
        · refine safe_bind.mpr ((safe_purchase hqty).mono ?_)
          intro out l' hout
          cases out with
          | error e => trivial
          | ok r => exact hout
      · cases hacc
    | refund n =>
      simp only [counterSystem, counterAccept] at hacc
      split at hacc
      · rename_i hprimed
        cases hacc
        constructor
        · refine ⟨h.products, h.positive, fun hnone => ?_, h.present⟩
          rw [hnone] at hprimed
          cases hprimed.2
        · refine .op (call_refund rfl) ?_ ?_
          · exact fun _ _ _ => trivial
          · exact fun _ _ _ => trivial
      · cases hacc
  tick := by
    intro s g d h
    exact ⟨h.products, h.positive, h.absent, h.present⟩
  env := fun _ _ e => e.elim
  guard := by
    intro c j f t o k hr hok ht hp hinv e p hf
    rw [hf] at hok
    cases hok

/-! ## Runs -/

theorem decided_eq (tr : List (Event shopSig Err)) (l : Acct) :
    (tr.foldr post l).decided = tr.filterMap decision ++ l.decided := by
  induction tr with
  | nil => rfl
  | cons e tr ih =>
    have hcons : (post e (tr.foldr post l)).decided =
        (decision e).toList ++ (tr.foldr post l).decided := rfl
    rw [List.foldr_cons, hcons, ih, List.filterMap_cons]
    cases decision e <;> rfl

variable {n : Nat} {c : Config shopSig Err CounterReq (Option PurchaseResult) Shop}

/-- The decisions in the log under a call are those of its account. -/
theorem decisionsOf_account
    (h : (counterSystem pid).Reachable (fun _ a => keepsAnswers a = true)
      (.init n (.fresh catalog)) c)
    {t : Thread shopSig Err CounterReq (Option PurchaseResult)} (ht : t ∈ c.pool) :
    decisionsOf t.id c.log = ((t.account post first).decided).reverse := by
  obtain ⟨i, hi⟩ := List.mem_iff_getElem?.mp ht
  obtain rfl := h.id_eq rfl i t hi
  rw [decisionsOf_eq ((h.log_trace rfl rfl).2 _ t hi), Thread.account, decided_eq]
  cases t.req <;> simp [first]

theorem answered
    (h : (counterSystem pid).Reachable (fun _ a => keepsAnswers a = true)
      (.init n (.fresh catalog)) c)
    {t : Thread shopSig Err CounterReq (Option PurchaseResult)} (ht : t ∈ c.pool) {qty : Nat}
    {r : PurchaseResult} (hreq : t.req = .purchase qty)
    (hr : t.prog.result = some (.ok (some r))) :
    (r = .notFound ∧ liveProduct catalog pid = none) ∨
      ((liveProduct catalog pid).isSome ∧
        ∃ a, decisionsOf t.id c.log = [(.take qty, a)] ∧ r = .ofAnswer a) := by
  have hended := (outline n catalog pid).ended h ht hr
  rw [hreq] at hended
  rcases hended with hnone | ⟨hlive, a, hdec, hra⟩
  · exact .inl hnone
  · refine .inr ⟨hlive, a, ?_, hra⟩
    rw [decisionsOf_account h ht]
    simp only [logic] at hdec
    rw [hdec, List.reverse_singleton]

end Linear

end Flashkart
