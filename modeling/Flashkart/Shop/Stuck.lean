import Flashkart.Shop.Announce
import Flashkart.Shop.Refund

/-!
# Shop.Stuck

What becomes of an order whose fulfill or notify job throws on its last attempt. Only the worker of
the first queue has a `failed` listener, and the compensation it starts moves pending orders only:
an order that has a job of a later stage is paid for, and nothing ever makes it fail.

* `never_compensated` — in every run such an order keeps its status and gets no units back.
* `paid_and_stuck`    — a fulfill job that throws three times.
-/

namespace Flashkart

open Async

/-- The order's job of the stage has used up its attempts, and the order has not made the step. -/
structure Shop.Exhausted (w : Shop) (o : ObjectId) (queue : QueueName) : Prop where
  job : ∃ d ∈ w.jobs, d.queue = queue ∧ castObjectId d.orderId = some o ∧ d.state = .failed
  still : progressRank (w.status o) < progressRank (some queue.stage.2)

/-- The order has failed, and its units have come back once. -/
def Compensated (o : ObjectId) (c : ShopConfig) : Prop :=
  ∃ d ∈ c.world.2.orders, d.id = o ∧ d.status = .failed ∧
    creditsOf (.order o) c = [⟨.order o, stockKey d.productId.toString, d.quantity⟩]

theorem Progress.of_failed {s : Option OrderStatus} (h : Progress (some .failed) s) :
    s = some .failed := by
  cases h with
  | same => rfl
  | move h => cases h

/-- Whoever has paid does not fail any more. -/
theorem Progress.paid {s s' : Option OrderStatus} (h : Progress s s') (hs : 2 ≤ progressRank s)
    (hne : s ≠ some .failed) : 2 ≤ progressRank s' ∧ s' ≠ some .failed := by
  cases h with
  | same => exact ⟨hs, hne⟩
  | create => cases hs
  | move h =>
    cases h with
    | pay => exact ⟨by decide, (fun he => by cases he)⟩
    | fulfill => exact ⟨by decide, (fun he => by cases he)⟩
    | confirm => exact ⟨by decide, (fun he => by cases he)⟩
    | fail => exact absurd hs (by decide)

theorem status_of_rank {s : Option OrderStatus} {queue : QueueName}
    (hle : progressRank (some queue.stage.1) ≤ progressRank s)
    (hlt : progressRank s < progressRank (some queue.stage.2)) (hne : s ≠ some .failed) :
    s = some queue.stage.1 := by
  cases queue <;> rcases s with _ | (_ | _ | _ | _ | _) <;> revert hle hlt hne <;> decide

/-- An order that has made steps for which it is announced has not failed. -/
theorem rank_of_announced {s : Option OrderStatus} {queue : QueueName}
    (hq : queue ≠ .ordersProcess) (h : milestones (some queue.stage.1) <+: milestones s) :
    progressRank (some queue.stage.1) ≤ progressRank s ∧ s ≠ some .failed := by
  cases queue with
  | ordersProcess => exact absurd rfl hq
  | ordersFulfill => rcases s with _ | (_ | _ | _ | _ | _) <;> revert h <;> decide
  | ordersNotify => rcases s with _ | (_ | _ | _ | _ | _) <;> revert h <;> decide

/-- The call has moved the order to failed. -/
def failsOrder (o : ObjectId) : (op : ShopOp) → Except Err op.Ret → Bool
  | .orderFindOneAndUpdate _ _ dst _, .ok (some d) => dst = .failed && d.id = o
  | _, _ => false

def fails (o : ObjectId) : Event apiSig Err → Bool
  | ⟨_, .inl _, _⟩ => false
  | ⟨_, .inr op, out⟩ => failsOrder o op out

section Runs

variable {ok : System.Guard apiSig Err ShopReq ShopRes (IdemKv × Shop) Pick ShopEnv} {n : Nat}
  {catalog : ObjectId → Option ProductDoc} {c : ShopConfig} {o : ObjectId}

theorem failed_of_fails {now i : Nat} {op : ShopOp} {f : Fate Err Pick} {w w' : Shop}
    {out : Except Err op.Ret} (hn : w.OrderIds)
    (hx : shopStore.exec now i op f w = some (out, w')) (h : failsOrder o op out = true) :
    w'.status o = some .failed := by
  cases op with
  | orderFindOneAndUpdate id src dst reason =>
    rcases out with e | (_ | d)
    · cases h
    · cases h
    · simp only [failsOrder, Bool.and_eq_true, decide_eq_true_eq] at h
      obtain ⟨rfl, rfl⟩ := h
      rcases Store.exec_effect hx with ⟨-, q, a, hs, hout⟩ | ⟨-, -, e, he⟩
      · have ha := hout _ rfl
        subst ha
        rcases status_findOneAndUpdate hn hs with ⟨d', hd', -, -, hstatus⟩ | ⟨hd', -, -⟩
        · cases hd'
          rw [hstatus, Function.update_self]
        · cases hd'
      · cases he
  | _ => cases h

/-- What has made an order fail shows for good. -/
theorem failed_for_good (h : shopSystem.Reachable ok (freshShop n catalog) c) :
    ∀ t ∈ c.pool, ∀ e ∈ t.trace, fails o e = true → c.world.2.status o = some .failed := by
  refine h.invariant (I := fun c => ∀ t ∈ c.pool, ∀ e ∈ t.trace, fails o e = true →
    c.world.2.status o = some .failed) (fun t ht => by cases ht) ?_
  intro c a c' hr ih _ hs t ht e he hfails
  have hkeeps : c.world.2.status o = some .failed → c'.world.2.status o = some .failed := by
    intro hf
    have hstep := progress_step hr hs o
    rw [hf] at hstep
    exact hstep.of_failed
  cases a with
  | arrive r =>
    obtain ⟨w', hw, rfl⟩ := Option.map_eq_some_iff.mp hs
    rcases List.mem_append.mp ht with ht | ht
    · exact hkeeps (ih t ht e he hfails)
    · rw [List.mem_singleton.mp ht] at he
      cases he
  | call i f =>
    obtain ⟨id, r, op, k, tr, out, w', hp, hx, rfl⟩ := System.callStep_eq_some hs
    rcases List.mem_or_eq_of_mem_set ht with ht | rfl
    · exact hkeeps (ih t ht e he hfails)
    · rcases List.mem_cons.mp he with rfl | he
      · cases op with
        | inl k => cases hfails
        | inr op => exact failed_of_fails (orderIds_reachable hr) (exec_inr hx).1 hfails
      · exact hkeeps (ih _ (List.mem_of_getElem? hp) e he hfails)
  | tick d => cases hs; exact hkeeps (ih t ht e he hfails)
  | env e' =>
    obtain ⟨w', hw, rfl⟩ := Option.map_eq_some_iff.mp hs
    exact hkeeps (ih t ht e he hfails)

/-- A thread comes to owe an order its units by the call that makes it fail. -/
theorem owed_before {op : ShopOp} {out : Except Err op.Ret} {l : Refunder} {x : Credit}
    (hx : x ∈ (Refunder.post op out l).val) (ho : x.record = .order o) :
    failsOrder o op out = true ∨ ∃ y ∈ l.val, y.record = .order o := by
  have hsame : Refunder.post op out l = l → ∃ y ∈ l.val, y.record = .order o :=
    fun heq => ⟨x, heq ▸ hx, ho⟩
  have hcredits : x ∈ l.credits → ∃ y ∈ l.val, y.record = .order o :=
    fun hmem => ⟨x, Multiset.mem_coe.mpr (List.mem_append_right _ hmem), ho⟩
  cases op with
  | reservationFindOneAndUpdate f dst =>
    rcases out with e | (_ | d)
    · exact .inr (hsame rfl)
    · exact .inr (hsame rfl)
    · simp only [Refunder.post] at hx
      split at hx
      · rcases List.mem_cons.mp (Multiset.mem_coe.mp hx) with rfl | hmem
        · cases ho
        · exact .inr (hcredits hmem)
      · exact .inr ⟨x, hx, ho⟩
  | orderFindOneAndUpdate id src dst reason =>
    rcases out with e | (_ | d)
    · exact .inr (hsame rfl)
    · exact .inr (hsame rfl)
    · simp only [Refunder.post] at hx
      split at hx
      · rename_i hdst
        rcases List.mem_cons.mp (Multiset.mem_coe.mp hx) with rfl | hmem
        · left
          simp [failsOrder, hdst, Record.order.inj ho]
        · exact .inr (hcredits hmem)
      · exact .inr ⟨x, hx, ho⟩
  | incrby k m =>
    cases out with
    | error e => exact .inr (hsame rfl)
    | ok v =>
      right
      obtain ⟨owed, credits⟩ := l
      cases owed with
      | none => exact hcredits (Multiset.mem_coe.mp hx)
      | some y =>
        rcases List.mem_cons.mp (Multiset.mem_coe.mp hx) with rfl | hmem
        · exact ⟨y, Multiset.mem_coe.mpr (List.mem_cons_self ..), ho⟩
        · exact hcredits hmem
  | _ => exact .inr (hsame rfl)

theorem fails_of_owed {tr : List (Event apiSig Err)} {x : Credit}
    (hx : x ∈ (tr.foldr (shopPost Refunder.post) ⟨none, []⟩).val) (ho : x.record = .order o) :
    ∃ e ∈ tr, fails o e = true := by
  induction tr generalizing x with
  | nil => cases Multiset.mem_coe.mp hx
  | cons e tr ih =>
    obtain ⟨time, op, out⟩ := e
    have hlater : (∃ e ∈ tr, fails o e = true) →
        ∃ e ∈ (⟨time, op, out⟩ : Event apiSig Err) :: tr, fails o e = true :=
      fun ⟨e, he, hf⟩ => ⟨e, List.mem_cons_of_mem _ he, hf⟩
    cases op with
    | inl k => exact hlater (ih hx ho)
    | inr op =>
      have hbefore : failsOrder o op out = true ∨
          ∃ y ∈ (tr.foldr (shopPost Refunder.post) ⟨none, []⟩).val, y.record = .order o :=
        owed_before hx ho
      rcases hbefore with hf | ⟨y, hy, hyo⟩
      · exact ⟨_, List.mem_cons_self .., hf⟩
      · exact hlater (ih hy hyo)

theorem stays_paid {c' : ShopConfig} (h : shopSystem.Reachable ok (freshShop n catalog) c)
    (h' : shopSystem.Reachable ok c c') (hs : 2 ≤ progressRank (c.world.2.status o))
    (hne : c.world.2.status o ≠ some .failed) :
    2 ≤ progressRank (c'.world.2.status o) ∧ c'.world.2.status o ≠ some .failed := by
  induction h' with
  | init => exact ⟨hs, hne⟩
  | step hr _ hstep ih => exact (progress_step (h.trans hr) hstep o).paid ih.1 ih.2

/-- Nothing is credited for an order that has not failed. -/
theorem no_credit (h : shopSystem.Reachable ok (freshShop n catalog) c)
    (hs : c.world.2.status o ≠ some .failed) : creditsOf (.order o) c = [] := by
  refine List.filter_eq_nil_iff.mpr fun x hx ho => hs ?_
  obtain ⟨t, ht, hx⟩ := List.mem_flatMap.mp hx
  have howed : ∃ e ∈ t.trace, fails o e = true :=
    fails_of_owed (Multiset.mem_coe.mpr (List.mem_append_right _ hx)) (of_decide_eq_true ho)
  obtain ⟨e, he, hf⟩ := howed
  exact failed_for_good h t ht e he hf

end Runs

/-- **Never.** In every run an order that has a job of a later stage has not failed and does not,
and nothing is given back for it: when the job has used up its attempts, the order stays where it
was. -/
theorem never_compensated
    {ok : System.Guard apiSig Err ShopReq ShopRes (IdemKv × Shop) Pick ShopEnv} {n : Nat}
    {catalog : ObjectId → Option ProductDoc} {c : ShopConfig} {o : ObjectId} {queue : QueueName}
    (h : shopSystem.Reachable ok (freshShop n catalog) c) (hq : queue ≠ .ordersProcess)
    (hex : c.world.2.Exhausted o queue) :
    c.world.2.status o = some queue.stage.1 ∧
      ∀ c', shopSystem.Reachable ok c c' → c'.world.2.status o ≠ some .failed ∧
        creditsOf (.order o) c' = [] ∧ ¬Compensated o c' := by
  obtain ⟨d, hd, rfl, hid, -⟩ := hex.job
  -- the job exists because the step before it was made and announced
  have hannounced : milestones (some d.queue.stage.1) <+: milestones (c.world.2.status o) := by
    obtain ⟨hinv, -⟩ := (Announce.outline ok n catalog o).adequate h
    have hadded := hinv.added d.queue d.orderId (List.mem_map.mpr ⟨d, hd, rfl⟩) hid
    exact hadded.trans hinv.behind
  obtain ⟨hrank, hne⟩ := rank_of_announced hq hannounced
  have hstuck := status_of_rank hrank hex.still hne
  refine ⟨hstuck, fun c' hc' => ?_⟩
  have hpaid : 2 ≤ progressRank (c.world.2.status o) := by
    rw [hstuck]
    revert hq
    cases d.queue <;> decide
  have hstays := (stays_paid h hc' hpaid hne).2
  refine ⟨hstays, no_credit (h.trans hc') hstays, ?_⟩
  rintro ⟨d', hd', rfl, hfailed, -⟩
  refine hstays ?_
  rw [Shop.status, (Collection.lookup_eq_some (orderIds_reachable (h.trans hc'))).mpr ⟨hd', rfl⟩,
    Option.map_some, hfailed]

/-- What is seen of the order `idB` and its product once a run is over. -/
structure Aftermath where
  quiet : Bool
  jobs : List Job
  status : Option OrderStatus
  stock : Option Int
  credits : List Credit
  deriving DecidableEq

def aftermathOf (c : ShopConfig) : Aftermath where
  quiet := c.pool.all fun t => t.prog.result.isSome
  jobs := c.world.2.jobs
  status := c.world.2.status idB
  stock := c.world.2.stock (stockKey idA.toString)
  credits := creditsOf (.order idB) c

/-- A job that throws at its first call, once for each of its attempts. -/
def throwsThrice (job first : Nat) (queue : QueueName) : List ShopAct :=
  [0, 1, 2].flatMap fun k =>
    [.arrive (.deliver job queue idB.toString), .call (first + k) (.failed (.error "no answer"))] ++
      callsOf (first + k) 1 idB ++ [.env (.promote job)]

def fulfillStuck : List ShopAct :=
  orderPlaced ++ .arrive (.deliver 0 .ordersProcess idB.toString) :: callsOf 1 8 idB ++
    throwsThrice 1 2 .ordersFulfill

def notifyStuck : List ShopAct :=
  orderPlaced ++ .arrive (.deliver 0 .ordersProcess idB.toString) :: callsOf 1 8 idB ++
    .arrive (.deliver 1 .ordersFulfill idB.toString) :: callsOf 2 6 idB ++
    throwsThrice 2 3 .ordersNotify

theorem stuck_of_run {acts : List ShopAct} {q : QueueName} {s : OrderStatus} {jobs : List Job}
    (hrun : (shopSystem.run effectless (freshShop 0 (oneProduct 1)) acts).map aftermathOf =
      some ⟨true, jobs, some s, some 0, []⟩)
    (hjob : (⟨q, idB.toString, .failed, JOB_ATTEMPTS⟩ : Job) ∈ jobs)
    (hs : progressRank (some s) < progressRank (some q.stage.2)) :
    ∃ c, shopSystem.Reachable (fun c a => effectless c a = true) (freshShop 0 (oneProduct 1)) c ∧
      c.Quiet ∧ c.world.2.Exhausted idB q ∧ c.world.2.status idB = some s ∧
        c.world.2.stock (stockKey idA.toString) = some 0 ∧ creditsOf (.order idB) c = [] := by
  obtain ⟨c, hc, hseen⟩ := Option.map_eq_some_iff.mp hrun
  simp only [aftermathOf, Aftermath.mk.injEq, List.all_eq_true] at hseen
  obtain ⟨hquiet, rfl, hstatus, hstock, hcredits⟩ := hseen
  refine ⟨c, .of_run hc, fun t ht => Option.ne_none_iff_isSome.mpr (hquiet t ht), ⟨?_, ?_⟩,
    hstatus, hstock, hcredits⟩
  · exact ⟨_, hjob, rfl, castObjectId_toString idB, rfl⟩
  · rw [hstatus]
    exact hs

/-- A fulfill job that throws three times, and a notify job that does. -/
theorem paid_and_stuck :
    ¬∀ (n : Nat) (catalog : ObjectId → Option ProductDoc) (c : ShopConfig) (o : ObjectId)
      (queue : QueueName),
      shopSystem.Reachable (fun c a => effectless c a = true) (freshShop n catalog) c → c.Quiet →
      queue ≠ .ordersProcess → c.world.2.Exhausted o queue → Compensated o c := by
  have hrun : (shopSystem.run effectless (freshShop 0 (oneProduct 1)) fulfillStuck).map
      aftermathOf = some ⟨true, [⟨.ordersProcess, idB.toString, .completed, 0⟩,
        ⟨.ordersFulfill, idB.toString, .failed, 3⟩], some .paid, some 0, []⟩ := by decide
  obtain ⟨c, hr, hquiet, hex, -, -, hcredits⟩ :=
    stuck_of_run (q := .ordersFulfill) hrun (by decide) (by decide)
  intro h
  obtain ⟨d, -, -, -, hone⟩ := h 0 _ c idB .ordersFulfill hr hquiet (by decide) hex
  rw [hcredits] at hone
  cases hone

/-- The notify job throws three times: the order is fulfilled, and stays so. -/
theorem never_compensated_notify :
    ∃ c, shopSystem.Reachable (fun c a => effectless c a = true) (freshShop 0 (oneProduct 1)) c ∧
      c.world.2.Exhausted idB .ordersNotify ∧ c.world.2.status idB = some .fulfilled ∧
      ∀ c', shopSystem.Reachable (fun c a => effectless c a = true) c c' →
        c'.world.2.status idB ≠ some .failed ∧ creditsOf (.order idB) c' = [] ∧
          ¬Compensated idB c' := by
  have hrun : (shopSystem.run effectless (freshShop 0 (oneProduct 1)) notifyStuck).map
      aftermathOf = some ⟨true, [⟨.ordersProcess, idB.toString, .completed, 0⟩,
        ⟨.ordersFulfill, idB.toString, .completed, 0⟩,
        ⟨.ordersNotify, idB.toString, .failed, 3⟩], some .fulfilled, some 0, []⟩ := by decide
  obtain ⟨c, hr, -, hex, -, -, -⟩ :=
    stuck_of_run (q := .ordersNotify) hrun (by decide) (by decide)
  obtain ⟨hstatus, hnever⟩ := never_compensated hr (by decide) hex
  exact ⟨c, hr, hex, hstatus, hnever⟩

end Flashkart
