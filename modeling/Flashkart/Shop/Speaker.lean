import Flashkart.Async.Echo
import Flashkart.Shop.Rules

/-!
# Shop.Speaker

The stock events of one product, and where a request is between a change of its counter and the
announcement of the new value.

`purchase` and the release hand the event to a publish that nobody waits for: it is stamped at
once and lands later, from the `outbox`. The tick and the compensation stamp it and then wait for
it to land. `reserve` announces the value of its `purchase` once more when its record is there.
The units that `reserve`'s `catch` block and the sweep of the api put back are never announced.
-/

namespace Flashkart

open Async Logic

/-- The events of a product, in the order of the channel. -/
def Shop.stockEvents (w : Shop) (pid : String) : List StockEvent :=
  w.stockChannel.filter fun ev => ev.productId = pid

def StockEvent.stamp (ev : StockEvent) : Stamped Int := ⟨ev.remaining, ev.ts⟩

def Shop.landed (w : Shop) (pid : String) : List (Stamped Int) :=
  (w.stockEvents pid).map StockEvent.stamp

/-- `quiet`: the request has not changed the counter. `settled n`: it owes no announcement, and
`n` is the last value it got. -/
inductive Stage where
  | quiet
  | due (n : Int)
  | stamped (n : Int) (ts : Nat)
  | settled (n : Int)
  deriving DecidableEq

def Stage.rests : Stage → Bool
  | .quiet | .settled _ => true
  | _ => false

def Stage.stamp (ts : Nat) : Stage → Stage
  | .due n => .stamped n ts
  | s => s

/-- `reserve` has its record and is about to announce its value again. -/
def Stage.renew : Stage → Stage
  | .settled n => .due n
  | s => s

/-- The requests that announce the units they return. -/
def ShopReq.announces : ShopReq → Bool
  | .release _ | .tick _ | .deliver .. | .compensate .. => true
  | _ => false

structure Speaker where
  announces : Bool
  stage : Stage
  deriving DecidableEq

def Speaker.post (pid : String) : (o : ShopOp) → Except Err o.Ret → Speaker → Speaker
  | .buyStock k _, .ok n, l =>
    if k = stockKey pid ∧ ¬(n = -2 ∨ n = -1) then { l with stage := .due n } else l
  | .incrby k m, .ok n, l =>
    if k = stockKey pid then
      if l.announces then { l with stage := .due n }
      else if m = 0 then l
      else { l with stage := .settled n }
    else l
  | .publishStockUpdate p n _, _, l => if p = pid then { l with stage := .settled n } else l
  | .publishStock ev, _, l =>
    if ev.productId = pid then { l with stage := .settled ev.remaining } else l
  | .dateNow, .ok ts, l => { l with stage := l.stage.stamp ts }
  | .reservationCreate _, .ok _, l => { l with stage := l.stage.renew }
  | _, _, l => l

/-- The call changed the counter. -/
def ShopOp.changes (pid : String) : (o : ShopOp) → Except Err o.Ret → Bool
  | .buyStock k _, .ok n => k = stockKey pid && !decide (n = -2 ∨ n = -1)
  | .incrby k m, .ok _ => k = stockKey pid && m ≠ 0
  | _, _ => false

theorem post_quiet {pid : String} {o : ShopOp} {out : Except Err o.Ret} {l : Speaker}
    (h : (Speaker.post pid o out l).stage = .quiet) :
    l.stage = .quiet ∧ o.changes pid out = false := by
  cases o with
  | buyStock k q =>
    cases out with
    | error e => exact ⟨h, rfl⟩
    | ok n =>
      simp only [Speaker.post] at h
      split at h
      · cases h
      · rename_i hnot
        refine ⟨h, ?_⟩
        rw [ShopOp.changes, ← Bool.not_eq_true]
        simpa using hnot
  | incrby k m =>
    cases out with
    | error e => exact ⟨h, rfl⟩
    | ok n =>
      simp only [Speaker.post] at h
      split at h
      · split at h
        · cases h
        · split at h
          · rename_i hm
            exact ⟨h, by simp [ShopOp.changes, hm]⟩
          · cases h
      · rename_i hk
        exact ⟨h, by simp [ShopOp.changes, hk]⟩
  | publishStockUpdate p n reason =>
    simp only [Speaker.post] at h
    split at h
    · cases h
    · exact ⟨h, rfl⟩
  | publishStock ev =>
    simp only [Speaker.post] at h
    split at h
    · cases h
    · exact ⟨h, rfl⟩
  | dateNow =>
    cases out with
    | error e => exact ⟨h, rfl⟩
    | ok ts =>
      refine ⟨?_, rfl⟩
      have hstage : l.stage.stamp ts = .quiet := h
      revert hstage
      cases l.stage <;> intro hs <;> first | rfl | cases hs
  | reservationCreate inp =>
    cases out with
    | error e => exact ⟨h, rfl⟩
    | ok a =>
      refine ⟨?_, rfl⟩
      have hstage : l.stage.renew = .quiet := h
      revert hstage
      cases l.stage <;> intro hs <;> first | rfl | cases hs
  | _ => exact ⟨h, rfl⟩

/-- The announcements that have their stamp and have not landed. -/
def flight (pid : String) (w : Shop) (g : Multiset Speaker) : Set (Stamped Int) :=
  {s | (∃ ev ∈ w.outbox, ev.productId = pid ∧ ev.stamp = s) ∨
    ∃ a ∈ g, a.stage = .stamped s.value s.ts}

def due (g : Multiset Speaker) : Set Int := {v | ∃ a ∈ g, a.stage = .due v}

/-! ## Too late, and nothing after it

What must not happen on the way: a step that takes the true value away from those who listen while
nobody is about to tell them. -/

/-- Somebody has changed the counter to `n` and has not stamped the announcement. -/
def unsaid (as : List Speaker) (n : Int) : Bool := as.any fun a => a.stage = .due n

def Speaker.sending (n : Int) (a : Speaker) : Bool :=
  match a.stage with
  | .stamped m _ => m = n
  | _ => false

/-- An announcement of `n` has still to land. -/
def onWay (pid : String) (w : Shop) (as : List Speaker) (n : Int) : Bool :=
  unsaid as n || as.any (Speaker.sending n) ||
    w.outbox.any fun ev => ev.productId = pid && ev.remaining = n

/-- `n` may be stamped: it is the counter's value, or somebody has yet to stamp that. -/
def mayStamp (pid : String) (w : Shop) (as : List Speaker) (n : Int) : Bool :=
  (w.stock (stockKey pid)).any fun v => n = v || unsaid as v

/-- `n` may land: it is the counter's value, or an announcement of that has still to land. -/
def mayLand (pid : String) (w : Shop) (as : List Speaker) (n : Int) : Bool :=
  (w.stock (stockKey pid)).any fun v => n = v || onWay pid w as v

/-- `n` units may come back: they are announced, or somebody has yet to stamp the new value. -/
def mayReturn (pid : String) (w : Shop) (as : List Speaker) (l : Speaker) (n : Nat) : Bool :=
  l.announces || n = 0 || (w.stock (stockKey pid)).any fun v => unsaid as (v + n)

/-- The call of the thread with account `l`, all accounts being `as`, leaves nobody untold. -/
def heeds (pid : String) (w : Shop) (as : List Speaker) (l : Speaker) : ShopOp → Bool
  | .incrby k n => k ≠ stockKey pid || mayReturn pid w as l n
  | .publishStockUpdate p n _ => p ≠ pid || mayStamp pid w as n
  | .publishStock ev => ev.productId ≠ pid || mayLand pid w as ev.remaining
  | .dateNow =>
    match l.stage with
    | .due n => mayStamp pid w as n
    | _ => true
  | _ => true

/-- A publish succeeds, the clock can be read, and a call on a counter does not lose its answer. -/
def ShopOp.goesThrough : ShopOp → Fate Err Pick → Bool
  | .buyStock .., .lost .. | .incrby .., .lost .. => false
  | .publishStockUpdate .., f | .publishStock _, f | .dateNow, f => f.isAnswered
  | _, _ => true

/-! ## The invariant -/

/-- Nobody has changed the counter. -/
structure Silent (pid : String) (w : Shop) (g : Multiset Speaker) : Prop where
  landed : w.landed pid = []
  outbox : ∀ ev ∈ w.outbox, ev.productId ≠ pid
  quiet : ∀ a ∈ g, a.stage = .quiet

def Echoes (pid : String) (now : Nat) (w : Shop) (g : Multiset Speaker) : Prop :=
  Silent pid w g ∨ ∃ v, w.stock (stockKey pid) = some v ∧
    Told now v (w.landed pid) (flight pid w g) (due g)

section Invariant

variable {pid : String} {now : Nat} {w w' : Shop} {g : Multiset Speaker} {l l' : Speaker}
  {s : Stamped Int} {v n : Int} {as : List Speaker}

theorem mem_flight_add :
    s ∈ flight pid w ({l} + g) ↔ l.stage = .stamped s.value s.ts ∨ s ∈ flight pid w g := by
  simp only [flight, Set.mem_ofPred_eq, Multiset.mem_add, Multiset.mem_singleton]
  constructor
  · rintro (h | ⟨a, rfl | ha, hs⟩)
    · exact .inr (.inl h)
    · exact .inl hs
    · exact .inr (.inr ⟨a, ha, hs⟩)
  · rintro (hs | h | ⟨a, ha, hs⟩)
    · exact .inr ⟨l, .inl rfl, hs⟩
    · exact .inl h
    · exact .inr ⟨a, .inr ha, hs⟩

theorem mem_due_add : v ∈ due ({l} + g) ↔ l.stage = .due v ∨ v ∈ due g := by
  simp only [due, Set.mem_ofPred_eq, Multiset.mem_add, Multiset.mem_singleton]
  constructor
  · rintro ⟨a, rfl | ha, hs⟩
    · exact .inl hs
    · exact .inr ⟨a, ha, hs⟩
  · rintro (hs | ⟨a, ha, hs⟩)
    · exact ⟨l, .inl rfl, hs⟩
    · exact ⟨a, .inr ha, hs⟩

theorem mem_flight_outbox {ev : StockEvent} :
    s ∈ flight pid { w with outbox := w.outbox ++ [ev] } g ↔
      (ev.productId = pid ∧ s = ev.stamp) ∨ s ∈ flight pid w g := by
  simp only [flight, Set.mem_ofPred_eq, List.mem_append, List.mem_singleton]
  constructor
  · rintro (⟨e, he | rfl, hp, hs⟩ | h)
    · exact .inr (.inl ⟨e, he, hp, hs⟩)
    · exact .inl ⟨hp, hs.symm⟩
    · exact .inr (.inr h)
  · rintro (⟨hp, rfl⟩ | ⟨e, he, hp, hs⟩ | h)
    · exact .inl ⟨ev, .inr rfl, hp, rfl⟩
    · exact .inl ⟨e, .inl he, hp, hs⟩
    · exact .inr h

theorem flight_congr (ho : w'.outbox = w.outbox) : flight pid w' g = flight pid w g := by
  unfold flight
  rw [ho]

theorem landed_congr (hc : w'.stockChannel = w.stockChannel) : w'.landed pid = w.landed pid := by
  unfold Shop.landed Shop.stockEvents
  rw [hc]

theorem Silent.not_flight (h : Silent pid w g) : s ∉ flight pid w g := by
  rintro (⟨ev, hev, hp, -⟩ | ⟨a, ha, hs⟩)
  · exact h.outbox ev hev hp
  · rw [h.quiet a ha] at hs
    cases hs

theorem unsaid_iff (has : (as : Multiset Speaker) = {l} + g) :
    unsaid as v = true ↔ l.stage = .due v ∨ v ∈ due g := by
  rw [← mem_due_add, ← has]
  simp [unsaid, due]

theorem mayStamp_cases (has : (as : Multiset Speaker) = {l} + g)
    (h : mayStamp pid w as n = true) (hv : w.stock (stockKey pid) = some v) :
    n = v ∨ l.stage = .due v ∨ v ∈ due g := by
  simpa [mayStamp, hv, unsaid_iff has] using h

theorem onWay_cases (has : (as : Multiset Speaker) = g) (h : onWay pid w as v = true) :
    (∃ s ∈ flight pid w g, s.value = v) ∨ v ∈ due g := by
  simp only [onWay, Bool.or_eq_true, List.any_eq_true, Bool.and_eq_true, decide_eq_true_eq] at h
  rcases h with (h | ⟨a, ha, h⟩) | ⟨ev, hev, hp, hn⟩
  · obtain ⟨a, ha, hs⟩ := List.any_eq_true.mp h
    refine .inr ⟨a, ?_, of_decide_eq_true hs⟩
    rw [← has]
    exact Multiset.mem_coe.mpr ha
  · unfold Speaker.sending at h
    split at h
    · rename_i m ts hstage
      have hm : m = v := of_decide_eq_true h
      refine .inl ⟨⟨v, ts⟩, .inr ⟨a, ?_, ?_⟩, rfl⟩
      · rw [← has]
        exact Multiset.mem_coe.mpr ha
      · rw [hstage, hm]
    · cases h
  · exact .inl ⟨ev.stamp, .inl ⟨ev, hev, hp, rfl⟩, hn⟩

theorem mayLand_cases (has : (as : Multiset Speaker) = g) (h : mayLand pid w as n = true)
    (hv : w.stock (stockKey pid) = some v) :
    n = v ∨ (∃ s ∈ flight pid w g, s.value = v) ∨ v ∈ due g := by
  have h' : n = v ∨ onWay pid w as v = true := by simpa [mayLand, hv] using h
  exact h'.imp_right (onWay_cases has)

namespace Echoes

theorem past (h : Echoes pid now w g) :
    ∀ s, s ∈ w.landed pid ∨ s ∈ flight pid w g → s.ts ≤ now := by
  rcases h with hsilent | ⟨v, -, htold⟩
  · rintro s (hs | hs)
    · rw [hsilent.landed] at hs
      cases hs
    · exact absurd hs hsilent.not_flight
  · exact htold.past

theorem tick (h : Echoes pid now w g) (d : Nat) : Echoes pid (now + d) w g :=
  h.imp_right fun ⟨v, hv, htold⟩ => ⟨v, hv, htold.tick (Nat.le_add_right now d)⟩

theorem congr (h : Echoes pid now w g) (hs : w'.stock (stockKey pid) = w.stock (stockKey pid))
    (hc : w'.stockChannel = w.stockChannel) (ho : w'.outbox = w.outbox) :
    Echoes pid now w' g := by
  rcases h with ⟨h1, h2, h3⟩ | ⟨v, hv, htold⟩
  · exact .inl ⟨by rw [landed_congr hc, h1], by rw [ho]; exact h2, h3⟩
  · refine .inr ⟨v, hs.trans hv, ?_⟩
    rw [landed_congr hc, flight_congr ho]
    exact htold

/-- The counter is there for the first time. -/
theorem primed (h : Echoes pid now w g) (hnone : w.stock (stockKey pid) = none)
    (hc : w'.stockChannel = w.stockChannel) (ho : w'.outbox = w.outbox) :
    Echoes pid now w' g := by
  rcases h with ⟨h1, h2, h3⟩ | ⟨v, hv, -⟩
  · exact .inl ⟨by rw [landed_congr hc, h1], by rw [ho]; exact h2, h3⟩
  · rw [hnone] at hv
    cases hv

/-- An event of another product. -/
theorem outbox_other {ev : StockEvent} (h : Echoes pid now w g) (hp : ev.productId ≠ pid) :
    Echoes pid now { w with outbox := w.outbox ++ [ev] } g := by
  rcases h with ⟨h1, h2, h3⟩ | ⟨v, hv, htold⟩
  · refine .inl ⟨h1, fun e he => ?_, h3⟩
    rcases List.mem_append.mp he with he | he
    · exact h2 e he
    · rw [List.mem_singleton.mp he]
      exact hp
  · refine .inr ⟨v, hv, htold.mono (fun x => ?_) fun _ hx => hx⟩
    rw [mem_flight_outbox]
    exact or_iff_right fun hx => hp hx.1

theorem channel_other {ev : StockEvent} (h : Echoes pid now w g) (hp : ev.productId ≠ pid) :
    Echoes pid now { w with stockChannel := w.stockChannel ++ [ev] } g := by
  have hlanded : Shop.landed { w with stockChannel := w.stockChannel ++ [ev] } pid =
      w.landed pid := by
    simp [Shop.landed, Shop.stockEvents, hp]
  rcases h with ⟨h1, h2, h3⟩ | ⟨v, hv, htold⟩
  · exact .inl ⟨hlanded.trans h1, h2, h3⟩
  · refine .inr ⟨v, hv, ?_⟩
    rw [hlanded]
    exact htold

/-- One more request, which has done nothing. -/
theorem arrive (h : Echoes pid now w g) {b : Bool} :
    Echoes pid now w ({⟨b, .quiet⟩} + g) := by
  rcases h with ⟨h1, h2, h3⟩ | ⟨v, hv, htold⟩
  · refine .inl ⟨h1, h2, fun a ha => ?_⟩
    rcases Multiset.mem_add.mp ha with ha | ha
    · rw [Multiset.mem_singleton.mp ha]
    · exact h3 a ha
  · refine .inr ⟨v, hv, htold.mono (fun x => ?_) fun x hx => mem_due_add.mpr (.inr hx)⟩
    rw [mem_flight_add]
    exact or_iff_right (fun he => by cases he)

/-- The counter changes, and the announcement of its new value is due. -/
theorem change (h : Echoes pid now w ({l} + g)) (hv : w'.stock (stockKey pid) = some v) (hc : w'.stockChannel = w.stockChannel)
    (ho : w'.outbox = w.outbox) (hl' : ∀ n ts, l'.stage ≠ .stamped n ts)
    (hdue : l'.stage = .due v ∨ v ∈ due g) : Echoes pid now w' ({l'} + g) := by
  refine .inr ⟨v, hv, Told.of_due ?_ (mem_due_add.mpr hdue)⟩
  intro s hs
  apply h.past s
  rw [landed_congr hc, mem_flight_add, flight_congr ho] at hs
  rcases hs with hs | hs | hs
  · exact .inl hs
  · exact absurd hs (hl' _ _)
  · exact .inr (mem_flight_add.mpr (.inr hs))

/-- `reserve` is about to announce its value again. -/
theorem renew (h : Echoes pid now w ({l} + g)) (hl : l.stage = .settled n)
    (hl' : l'.stage = .due n) : Echoes pid now w ({l'} + g) := by
  rcases h with hsilent | ⟨v, hv, htold⟩
  · have := hsilent.quiet l (by simp)
    rw [hl] at this
    cases this
  · refine .inr ⟨v, hv, htold.mono (fun x => ?_) fun x hx => ?_⟩
    · rw [mem_flight_add, mem_flight_add, hl, hl']
      simp
    · rw [mem_due_add, hl] at hx
      exact mem_due_add.mpr (.inr (hx.resolve_left (fun he => by cases he)))

/-- An announcement that was due is stamped, by a request that waits for it or in the outbox. -/
theorem stamp (h : Echoes pid now w ({l} + g)) (has : (as : Multiset Speaker) = {l} + g)
    (hl : l.stage = .due n) (hmay : mayStamp pid w as n = true)
    (hs : w'.stock = w.stock) (hc : w'.stockChannel = w.stockChannel)
    (hflight : ∀ x, x ∈ flight pid w' ({l'} + g) ↔ x = ⟨n, now⟩ ∨ x ∈ flight pid w g) :
    Echoes pid now w' ({l'} + g) := by
  rcases h with hsilent | ⟨v, hv, htold⟩
  · have := hsilent.quiet l (by simp)
    rw [hl] at this
    cases this
  · refine .inr ⟨v, by rw [hs, hv], ?_⟩
    rw [landed_congr hc]
    refine htold.stamp (s := ⟨n, now⟩) rfl ?_ fun x => ?_
    · rcases mayStamp_cases has hmay hv with rfl | hdue | hdue
      · exact .inl rfl
      · rw [hl] at hdue
        cases hdue
        exact .inl rfl
      · exact .inr (mem_due_add.mpr (.inr hdue))
    · rw [hflight, mem_flight_add, hl]
      simp

theorem land {g' : Multiset Speaker} (h : Echoes pid now w g)
    (has : (as : Multiset Speaker) = g) (hmay : mayLand pid w as s.value = true)
    (hs : s ∈ flight pid w g) (hstock : w'.stock = w.stock)
    (hc : w'.landed pid = w.landed pid ++ [s]) (hsub : ∀ x ∈ flight pid w' g', x ∈ flight pid w g)
    (hsup : ∀ x ∈ flight pid w g, x = s ∨ x ∈ flight pid w' g') (hdue : due g ⊆ due g') :
    Echoes pid now w' g' := by
  rcases h with hsilent | ⟨v, hv, htold⟩
  · exact absurd hs hsilent.not_flight
  · refine .inr ⟨v, by rw [hstock, hv], ?_⟩
    rw [hc]
    refine htold.land hs ?_ hsub hsup hdue
    rcases mayLand_cases has hmay hv with heq | ⟨x, hx, hxv⟩ | hv
    · exact .inl heq
    · rcases hsup x hx with rfl | hx
      · exact .inl hxv
      · exact .inr (.inl ⟨x, hx, hxv⟩)
    · exact .inr (.inr (hdue hv))

/-- An event leaves the outbox for the channel. -/
theorem flush {j : Nat} {ev : StockEvent} (h : Echoes pid now w g)
    (has : (as : Multiset Speaker) = g) (hev : w.outbox[j]? = some ev)
    (hmay : ev.productId = pid → mayLand pid w as ev.remaining = true) :
    Echoes pid now { w with
      outbox := w.outbox.eraseIdx j, stockChannel := w.stockChannel ++ [ev] } g := by
  have hsub : ∀ x ∈ flight pid { w with
      outbox := w.outbox.eraseIdx j, stockChannel := w.stockChannel ++ [ev] } g,
      x ∈ flight pid w g := by
    rintro x (⟨e, he, hp⟩ | hx)
    · exact .inl ⟨e, List.mem_of_mem_eraseIdx he, hp⟩
    · exact .inr hx
  have hsup : ∀ x ∈ flight pid w g, (ev.productId = pid ∧ x = ev.stamp) ∨ x ∈ flight pid { w with
      outbox := w.outbox.eraseIdx j, stockChannel := w.stockChannel ++ [ev] } g := by
    rintro x (⟨e, he, hp, rfl⟩ | hx)
    · obtain ⟨k, hk⟩ := List.mem_iff_getElem?.mp he
      by_cases hkj : k = j
      · subst hkj
        rw [hev] at hk
        cases hk
        exact .inl ⟨hp, rfl⟩
      · exact .inr (.inl ⟨e, List.mem_eraseIdx_iff_getElem?.mpr ⟨k, hkj, hk⟩, hp, rfl⟩)
    · exact .inr (.inr hx)
  by_cases hp : ev.productId = pid
  · refine h.land has (s := ev.stamp) (hmay hp) ?_ rfl ?_ hsub
      (fun x hx => (hsup x hx).imp_left (·.2)) (fun _ hv => hv)
    · exact .inl ⟨ev, List.mem_of_getElem? hev, hp, rfl⟩
    · simp [Shop.landed, Shop.stockEvents, hp]
  · have hlanded : Shop.landed { w with
        outbox := w.outbox.eraseIdx j, stockChannel := w.stockChannel ++ [ev] } pid =
          w.landed pid := by
      simp [Shop.landed, Shop.stockEvents, hp]
    rcases h with ⟨h1, h2, h3⟩ | ⟨v, hv, htold⟩
    · exact .inl ⟨hlanded.trans h1, fun e he => h2 e (List.mem_of_mem_eraseIdx he), h3⟩
    · refine .inr ⟨v, hv, ?_⟩
      rw [hlanded]
      refine htold.mono (fun x => ⟨hsub x, fun hx => ?_⟩) fun _ hv => hv
      exact (hsup x hx).resolve_left fun h => hp h.1

end Echoes

end Invariant

end Flashkart
