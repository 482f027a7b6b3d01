import Flashkart.Shop.Orders

/-!
# Shop.Jobs

The jobs that were added to the queues. What a job is for never changes, no job is ever removed,
and a delivery is always one of a job that was added. As long as no active job is taken away from
its delivery, a delivery holds the lock of its job until it settles it.
-/

namespace Flashkart

open Async

/-- What the jobs are for, in the order they were added. -/
def Shop.jobKeys (w : Shop) : List (QueueName × String) :=
  w.jobs.map fun j => (j.queue, j.orderId)

section Store

variable {now i : Nat} {q : Pick} {w w' : Shop}

theorem jobKeys_modify {j : Nat} {f : Job → Job}
    (hf : ∀ d, (f d).queue = d.queue ∧ (f d).orderId = d.orderId) :
    Shop.jobKeys { w with jobs := w.jobs.modify j f } = w.jobKeys :=
  Collection.map_modify_of_eq (fun d => by rw [(hf d).1, (hf d).2]) _ _

theorem jobKeys_addJob {queue : QueueName} {oid : String}
    (h : shopStore now i (.addJob queue oid) q w = some ((), w')) :
    w'.jobKeys = w.jobKeys ++ [(queue, oid)] := by
  cases h
  simp [Shop.jobKeys, Job.add]

theorem jobKeys_other {o : ShopOp} {a : o.Ret} (ho : ∀ queue oid, o ≠ .addJob queue oid)
    (h : shopStore now i o q w = some (a, w')) : w'.jobKeys = w.jobKeys := by
  cases o with
  | addJob queue oid => exact absurd rfl (ho _ _)
  | moveToCompleted j =>
    cases h
    refine jobKeys_modify fun d => ?_
    unfold Job.complete
    split <;> exact ⟨rfl, rfl⟩
  | moveToFailed j =>
    simp only [shopStore] at h
    split at h
    · split at h
      · cases h
        refine jobKeys_modify fun d => ?_
        unfold Job.fail
        split <;> exact ⟨rfl, rfl⟩
      · cases h; rfl
    · cases h; rfl
  | _ => rw [Shop.jobKeys, (shopStore_same h).jobs (fun he => by cases he), Shop.jobKeys]

theorem jobKeys_store {o : ShopOp} {a : o.Ret} (h : shopStore now i o q w = some (a, w')) :
    w.jobKeys <+: w'.jobKeys := by
  by_cases ho : ∃ queue oid, o = .addJob queue oid
  · obtain ⟨queue, oid, rfl⟩ := ho
    rw [jobKeys_addJob h]
    exact List.prefix_append _ _
  · have hsame := jobKeys_other (fun queue oid he => ho ⟨queue, oid, he⟩) h
    exact hsame ▸ List.prefix_rfl

theorem jobKeys_accept {r : ShopReq} {w w' : IdemKv × Shop} (h : shopAccept i r w = some w') :
    w'.2.jobKeys = w.2.jobKeys ∧
      ∀ j queue oid, r = .deliver j queue oid → w.2.jobKeys[j]? = some (queue, oid) := by
  cases r with
  | deliver j queue oid =>
    obtain ⟨s, hs, h⟩ := Option.map_eq_some_iff.mp h
    cases h
    simp only [Shop.lockJob] at hs
    split at hs
    · rename_i d hd
      split at hs
      · rename_i hd'
        cases hs
        refine ⟨jobKeys_modify fun _ => ⟨rfl, rfl⟩, ?_⟩
        intro j queue oid hr
        cases hr
        rw [Shop.jobKeys, List.getElem?_map, hd, Option.map_some, hd'.1, hd'.2.1]
      · cases hs
    · cases hs
  | _ => cases h; exact ⟨rfl, fun _ _ _ he => by cases he⟩

theorem jobKeys_surroundings {e : ShopEnv} (h : w.surroundings e = some w') :
    w'.jobKeys = w.jobKeys := by
  cases e with
  | flush j =>
    obtain ⟨ev, _, h⟩ := Option.map_eq_some_iff.mp h
    cases h; rfl
  | promote j =>
    cases h
    refine jobKeys_modify fun d => ?_
    split <;> exact ⟨rfl, rfl⟩
  | redeliver j => cases h; exact jobKeys_modify fun _ => ⟨rfl, rfl⟩
  | _ => cases h; rfl

end Store

/-- A call of a run leaves the store as it is or is one of `shopStore`. -/
theorem call_effect {c : ShopConfig} {now i : Nat} {o : apiSig.Op} {f : Fate Err Pick}
    {out : Except Err (apiSig.Ret o)} {w : IdemKv × Shop}
    (hx : shopSystem.store.exec now i o f c.world = some (out, w)) :
    w.2 = c.world.2 ∨
      ∃ op q a, o = .inr op ∧ shopStore now i op q c.world.2 = some (a, w.2) := by
  cases o with
  | inl k => exact .inl (exec_inl (o := k) hx)
  | inr op =>
    rcases Store.exec_effect (exec_inr (o := op) hx).1 with ⟨-, q, a, h, -⟩ | ⟨-, h, -⟩
    · exact .inr ⟨op, q, a, rfl, h⟩
    · exact .inl h

variable {ok : System.Guard apiSig Err ShopReq ShopRes (IdemKv × Shop) Pick ShopEnv} {n : Nat}
  {catalog : ObjectId → Option ProductDoc} {c : ShopConfig}

/-- What is delivered under a number is the job that was added there. -/
theorem delivered_at (h : shopSystem.Reachable ok (freshShop n catalog) c) :
    ∀ t ∈ c.pool, ∀ j queue oid, t.req = .deliver j queue oid →
      c.world.2.jobKeys[j]? = some (queue, oid) := by
  refine h.invariant (I := fun c => ∀ t ∈ c.pool, ∀ j queue oid, t.req = .deliver j queue oid →
    c.world.2.jobKeys[j]? = some (queue, oid)) (fun t ht => by cases ht) ?_
  intro c a c' _ ih _ hs t ht j queue oid hreq
  cases a with
  | arrive r =>
    obtain ⟨w', hw, rfl⟩ := Option.map_eq_some_iff.mp hs
    obtain ⟨hkeys, hadded⟩ := jobKeys_accept hw
    show w'.2.jobKeys[j]? = some (queue, oid)
    rw [hkeys]
    rcases List.mem_append.mp ht with ht | ht
    · exact ih t ht j queue oid hreq
    · rw [List.mem_singleton.mp ht] at hreq
      exact hadded j queue oid hreq
  | call i f =>
    obtain ⟨id, r, o, k, tr, out, w', hp, hx, rfl⟩ := System.callStep_eq_some hs
    have hold : c.world.2.jobKeys[j]? = some (queue, oid) := by
      rcases List.mem_or_eq_of_mem_set ht with ht | rfl
      · exact ih t ht j queue oid hreq
      · exact ih _ (List.mem_of_getElem? hp) j queue oid hreq
    show w'.2.jobKeys[j]? = some (queue, oid)
    rcases call_effect hx with heq | ⟨op, q, a, -, h⟩
    · rw [heq]; exact hold
    · obtain ⟨hlt, hkey⟩ := List.getElem?_eq_some_iff.mp hold
      rw [List.prefix_iff_getElem?.mp (jobKeys_store h) j hlt, hkey]
  | tick d => cases hs; exact ih t ht j queue oid hreq
  | env e =>
    obtain ⟨w', hw, rfl⟩ := Option.map_eq_some_iff.mp hs
    obtain ⟨s, he, rfl⟩ := Option.map_eq_some_iff.mp hw
    show s.jobKeys[j]? = some (queue, oid)
    rw [jobKeys_surroundings he]
    exact ih t ht j queue oid hreq

/-- Whatever is delivered was added. -/
theorem delivered_added (h : shopSystem.Reachable ok (freshShop n catalog) c) :
    ∀ t ∈ c.pool, ∀ j queue oid, t.req = .deliver j queue oid →
      (queue, oid) ∈ c.world.2.jobKeys :=
  fun t ht j queue oid hreq => List.mem_of_getElem? (delivered_at h t ht j queue oid hreq)

/-! ## Locks -/

/-- Waiting, active or due for retry. -/
def Job.live (d : Job) : Bool :=
  match d.state with
  | .waiting | .active _ | .delayed => true
  | .completed | .failed => false

/-- The delivery `lock` has job `j`. -/
def Shop.Locked (w : Shop) (j : Nat) (queue : QueueName) (oid : String) (lock : Nat) : Prop :=
  ∃ made, w.jobs[j]? = some ⟨queue, oid, .active lock, made⟩

/-- The calls that end a delivery. -/
def settles : apiSig.Op → Bool
  | .inr (.moveToCompleted _) | .inr (.moveToFailed _) => true
  | _ => false

/-- An active job is not made to wait again under the delivery that has it. -/
def keepsLocks (c : ShopConfig) : ShopAct → Bool
  | .env (.redeliver j) => (c.world.2.jobs[j]?).all fun d =>
    match d.state with
    | .active _ => false
    | _ => true
  | _ => true

/-- The same of the jobs of one queue. -/
def keepsLocksIn (queue : QueueName) (c : ShopConfig) : ShopAct → Bool
  | .env (.redeliver j) => (c.world.2.jobs[j]?).all fun d =>
    match d.state with
    | .active _ => d.queue ≠ queue
    | _ => true
  | _ => true

theorem keepsLocks_in {queue : QueueName} {c : ShopConfig} {a : ShopAct}
    (h : keepsLocks c a = true) : keepsLocksIn queue c a = true := by
  cases a with
  | env e =>
    cases e with
    | redeliver j =>
      simp only [keepsLocks, keepsLocksIn, Option.all_eq_true] at h ⊢
      intro d hd
      have hfree := h d hd
      split at hfree
      · cases hfree
      · rfl
    | _ => rfl
  | _ => rfl

section Locks

variable {j : Nat} {queue : QueueName} {oid : String} {lock : Nat} {w w' : Shop}

theorem Shop.Locked.congr (h : w.Locked j queue oid lock) (hj : w'.jobs = w.jobs) :
    w'.Locked j queue oid lock := by
  unfold Shop.Locked
  rw [hj]
  exact h

theorem Shop.Locked.modify (h : w.Locked j queue oid lock) {k : Nat} {f : Job → Job}
    (hf : ∀ made, w.jobs[k]? = some ⟨queue, oid, .active lock, made⟩ →
      f ⟨queue, oid, .active lock, made⟩ = ⟨queue, oid, .active lock, made⟩) :
    Shop.Locked { w with jobs := w.jobs.modify k f } j queue oid lock := by
  obtain ⟨made, h⟩ := h
  refine ⟨made, ?_⟩
  simp only [List.getElem?_modify, h, Option.map_eq_map, Option.map_some]
  split
  · rename_i hk
    rw [hf made (hk ▸ h)]
  · rfl

theorem locked_store {now i : Nat} {op : ShopOp} {q : Pick} {a : op.Ret}
    (h : w.Locked j queue oid lock) (hi : i = lock → settles (.inr op) = false)
    (hs : shopStore now i op q w = some (a, w')) : w'.Locked j queue oid lock := by
  have hne : settles (.inr op) = true → JobState.active lock ≠ .active i := by
    intro hop heq
    cases heq
    rw [hi rfl] at hop
    cases hop
  cases op with
  | addJob queue' oid' =>
    cases hs
    obtain ⟨made, h⟩ := h
    refine ⟨made, ?_⟩
    have hlt := (List.getElem?_eq_some_iff.mp h).1
    show (w.jobs ++ _)[j]? = _
    rw [List.getElem?_append_left hlt, h]
  | moveToCompleted k =>
    cases hs
    exact h.modify fun made _ => if_neg (hne rfl)
  | moveToFailed k =>
    simp only [shopStore] at hs
    split at hs
    · split at hs
      · cases hs
        exact h.modify fun made _ => if_neg (hne rfl)
      · cases hs; exact h
    · cases hs; exact h
  | _ => exact h.congr ((shopStore_same hs).jobs (fun he => by cases he))

theorem locked_accept {i : Nat} {r : ShopReq} {w w' : IdemKv × Shop}
    (hacc : shopAccept i r w = some w') :
    (∀ j queue oid lock, w.2.Locked j queue oid lock → w'.2.Locked j queue oid lock) ∧
      ∀ j queue oid, r = .deliver j queue oid → w'.2.Locked j queue oid i := by
  cases r with
  | deliver k q oid =>
    obtain ⟨s, hs, hacc⟩ := Option.map_eq_some_iff.mp hacc
    cases hacc
    simp only [Shop.lockJob] at hs
    split at hs
    · rename_i d hd
      split at hs
      · rename_i hfree
        cases hs
        obtain ⟨rfl, rfl, hwait⟩ := hfree
        constructor
        · intro j queue oid lock h
          refine h.modify fun made hk => ?_
          rw [hd] at hk
          cases hk
          cases hwait
        · rintro j queue oid hr
          cases hr
          refine ⟨d.attemptsMade, ?_⟩
          simp [hd]
      · cases hs
    · cases hs
  | _ => cases hacc; exact ⟨fun _ _ _ _ h => h, fun _ _ _ he => by cases he⟩

theorem locked_surroundings {c : ShopConfig} {e : ShopEnv} {w' : Shop}
    (hok : keepsLocksIn queue c (.env e) = true) (h : c.world.2.Locked j queue oid lock)
    (he : c.world.2.surroundings e = some w') : w'.Locked j queue oid lock := by
  cases e with
  | flush k =>
    obtain ⟨ev, _, he⟩ := Option.map_eq_some_iff.mp he
    cases he
    exact h
  | promote k => cases he; exact h.modify fun made _ => if_neg (fun he => by cases he)
  | redeliver k =>
    cases he
    refine h.modify fun made hk => ?_
    simp [keepsLocksIn, hk] at hok
  | _ => cases he; exact h

/-- Until it settles its job, a delivery of the queue has the lock. -/
theorem lock_held_in
    {ok : System.Guard apiSig Err ShopReq ShopRes (IdemKv × Shop) Pick ShopEnv}
    {n : Nat} {catalog : ObjectId → Option ProductDoc} {c : ShopConfig}
    (hok : ∀ c a, ok c a → keepsLocksIn queue c a = true)
    (h : shopSystem.Reachable ok (freshShop n catalog) c) :
    ∀ (i : Nat) (t : ShopThread), c.pool[i]? = some t → ∀ j oid,
      t.req = .deliver j queue oid → (∀ e ∈ t.trace, settles e.op = false) →
      c.world.2.Locked j queue oid i := by
  let I : ShopConfig → Prop := fun c => ∀ (i : Nat) (t : ShopThread), c.pool[i]? = some t →
    ∀ j oid, t.req = .deliver j queue oid → (∀ e ∈ t.trace, settles e.op = false) →
      c.world.2.Locked j queue oid i
  refine h.invariant (I := I) (by simp [I, freshShop, Config.init]) ?_
  intro c a c' hr ih hoka hs i t hi j oid hreq hopen
  cases a with
  | arrive r =>
    obtain ⟨w', hw, rfl⟩ := Option.map_eq_some_iff.mp hs
    obtain ⟨hkeep, hnew⟩ := locked_accept hw
    rw [List.getElem?_append] at hi
    split at hi
    · exact hkeep _ _ _ _ (ih i t hi j oid hreq hopen)
    · rename_i hge
      obtain ⟨hlt, rfl⟩ := List.getElem?_eq_some_iff.mp hi
      simp only [List.length_cons, List.length_nil] at hlt
      have hi' : i = c.pool.length := by omega
      subst hi'
      exact hnew j queue oid (by simpa using hreq)
  | call k f =>
    obtain ⟨id, r, o, kont, tr, out, w', hp, hx, rfl⟩ := System.callStep_eq_some hs
    obtain rfl : id = k := hr.id_eq rfl k _ hp
    -- the lock was held before the call, and the call is not one that gives it up
    have hold : c.world.2.Locked j queue oid i ∧ (id = i → settles o = false) := by
      rw [List.getElem?_set] at hi
      split at hi
      · rename_i hik
        subst hik
        split at hi
        · cases hi
          exact ⟨ih id _ hp j oid hreq fun e he => hopen e (List.mem_cons_of_mem _ he),
            fun _ => hopen _ (List.mem_cons_self ..)⟩
        · cases hi
      · rename_i hne
        exact ⟨ih i t hi j oid hreq hopen, fun h => absurd h hne⟩
    show w'.2.Locked j queue oid i
    rcases call_effect hx with heq | ⟨op, q, a, rfl, hstore⟩
    · rw [heq]; exact hold.1
    · exact locked_store hold.1 hold.2 hstore
  | tick d => cases hs; exact ih i t hi j oid hreq hopen
  | env e =>
    obtain ⟨w', hw, rfl⟩ := Option.map_eq_some_iff.mp hs
    obtain ⟨s, he, rfl⟩ := Option.map_eq_some_iff.mp hw
    exact locked_surroundings (hok _ _ hoka) (ih i t hi j oid hreq hopen) he

/-- Until it settles its job, a delivery has the lock. -/
theorem lock_held {ok : System.Guard apiSig Err ShopReq ShopRes (IdemKv × Shop) Pick ShopEnv}
    {n : Nat} {catalog : ObjectId → Option ProductDoc} {c : ShopConfig}
    (hok : ∀ c a, ok c a → keepsLocks c a = true)
    (h : shopSystem.Reachable ok (freshShop n catalog) c) :
    ∀ (i : Nat) (t : ShopThread), c.pool[i]? = some t → ∀ j queue oid,
      t.req = .deliver j queue oid → (∀ e ∈ t.trace, settles e.op = false) →
      c.world.2.Locked j queue oid i :=
  fun i t hi j _ oid hreq hopen =>
    lock_held_in (fun c a ha => keepsLocks_in (hok c a ha)) h i t hi j oid hreq hopen

end Locks

end Flashkart
