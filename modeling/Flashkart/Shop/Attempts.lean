import Flashkart.Shop.Jobs

/-!
# Shop.Attempts

The attempts of a job. An attempt is a delivery of the job: the job is active under it until it
settles the job, and then the job has ended or is due for a retry.

* `job_step`      — how one action of a run leaves a job.
* `attempt_of`    — an active job has a delivery at it.
* `attempts_made` — if a job of the queue is retried only after an attempt of it threw, then
  `attemptsMade` counts the attempts that did, and there are `JOB_ATTEMPTS` of them at most.
-/

namespace Flashkart

open Async

/-- Waiting, or due for a retry. -/
def Job.queued (d : Job) : Bool :=
  match d.state with
  | .waiting | .delayed => true
  | _ => false

/-- Whether the attempt that was last is still on, or has ended well. -/
def Job.unfailed (d : Job) : Nat :=
  match d.state with
  | .active _ | .completed => 1
  | _ => 0

def ShopReq.delivers (j : Nat) : ShopReq → Bool
  | .deliver k _ _ => k = j
  | _ => false

/-- How often job `j` was delivered. -/
def attempts (c : ShopConfig) (j : Nat) : Nat := (c.pool.map (·.req)).countP (·.delivers j)

/-- No job of the queue is run again while it is active, or when it has ended. -/
def retriesOnly (queue : QueueName) (c : ShopConfig) : ShopAct → Bool
  | .env (.redeliver j) => (c.world.2.jobs[j]?).all fun d => d.queue ≠ queue || d.queued
  | _ => true

theorem keepsLocksIn_of_retries {queue : QueueName} {c : ShopConfig} {a : ShopAct}
    (h : retriesOnly queue c a = true) : keepsLocksIn queue c a = true := by
  cases a with
  | env e =>
    cases e with
    | redeliver j =>
      simp only [retriesOnly, keepsLocksIn, Option.all_eq_true] at h ⊢
      intro d hd
      have hqueued := h d hd
      split
      · rename_i lock hactive
        simpa [Job.queued, hactive] using hqueued
      · rfl
    | _ => rfl
  | _ => rfl

/-! ## One action -/

/-- What an action that leaves job `j` as the last argument has done to it, in a pool of `n`. -/
inductive JobStep (w : Shop) (n j : Nat) : ShopAct → Job → Prop where
  | same {a : ShopAct} {d : Job} (hd : w.jobs[j]? = some d)
      (ha : ∀ r, a = .arrive r → r.delivers j = false) : JobStep w n j a d
  | added {i : Nat} {f : Fate Err Pick} (queue : QueueName) (oid : String)
      (hj : w.jobs.length = j) : JobStep w n j (.call i f) (Job.add queue oid)
  | taken {d : Job} (hd : w.jobs[j]? = some d) (hw : d.state = .waiting) :
      JobStep w n j (.arrive (.deliver j d.queue d.orderId)) { d with state := .active n }
  | completed {i : Nat} {f : Fate Err Pick} {d : Job} (hd : w.jobs[j]? = some d)
      (ha : d.state = .active i) : JobStep w n j (.call i f) (d.complete i)
  | failed {i : Nat} {f : Fate Err Pick} {d : Job} (hd : w.jobs[j]? = some d)
      (ha : d.state = .active i) : JobStep w n j (.call i f) (d.fail i)
  | again {e : ShopEnv} {d : Job} (hd : w.jobs[j]? = some d)
      (he : d.state = .delayed ∨ e = .redeliver j) : JobStep w n j (.env e) { d with state := .waiting }

section Step

variable {w w' : Shop} {n j : Nat} {d : Job}

theorem job_modify {k : Nat} {f : Job → Job} (h : (w.jobs.modify k f)[j]? = some d) :
    (k ≠ j ∧ w.jobs[j]? = some d) ∨ (k = j ∧ ∃ d₀, w.jobs[j]? = some d₀ ∧ d = f d₀) := by
  rw [List.getElem?_modify] at h
  obtain ⟨d₀, hd₀, rfl⟩ := Option.map_eq_some_iff.mp h
  by_cases hk : k = j
  · exact .inr ⟨hk, d₀, hd₀, by rw [if_pos hk]⟩
  · exact .inl ⟨hk, by rw [hd₀, if_neg hk]⟩

theorem job_store {i : Nat} {f : Fate Err Pick} {now : Nat} {op : ShopOp} {q : Pick} {a : op.Ret}
    (h : shopStore now i op q w = some (a, w')) (hd : w'.jobs[j]? = some d) :
    JobStep w n j (.call i f) d := by
  have hsame : w.jobs[j]? = some d → JobStep w n j (.call i f) d :=
    fun hd => .same hd fun r he => by cases he
  cases op with
  | addJob queue oid =>
    cases h
    rw [List.getElem?_append] at hd
    split at hd
    · exact hsame hd
    · rename_i hge
      obtain ⟨hlt, rfl⟩ := List.getElem?_eq_some_iff.mp hd
      simp only [List.length_cons, List.length_nil] at hlt
      rw [List.getElem_singleton]
      exact .added queue oid (by omega)
  | moveToCompleted k =>
    cases h
    rcases job_modify hd with ⟨-, hd⟩ | ⟨rfl, d₀, hd₀, rfl⟩
    · exact hsame hd
    · by_cases ha : d₀.state = .active i
      · exact .completed hd₀ ha
      · rw [Job.complete, if_neg ha] at hsame ⊢
        exact hsame hd₀
  | moveToFailed k =>
    simp only [shopStore] at h
    split at h
    · rename_i d₀ hd₀
      split at h
      · rename_i ha
        cases h
        rcases job_modify hd with ⟨-, hd⟩ | ⟨rfl, d₁, hd₁, rfl⟩
        · exact hsame hd
        · obtain rfl := Option.some.inj (hd₀.symm.trans hd₁)
          exact .failed hd₀ ha
      · cases h; exact hsame hd
    · cases h; exact hsame hd
  | _ => exact hsame ((shopStore_same h).jobs (fun he => by cases he) ▸ hd)

theorem job_accept {r : ShopReq} {w w' : IdemKv × Shop} (h : shopAccept n r w = some w')
    (hd : w'.2.jobs[j]? = some d) : JobStep w.2 n j (.arrive r) d := by
  have hsame : r.delivers j = false → w.2.jobs[j]? = some d → JobStep w.2 n j (.arrive r) d :=
    fun hr hd => .same hd fun r' he => (Act.arrive.inj he) ▸ hr
  cases r with
  | deliver k queue oid =>
    obtain ⟨s, hs, h⟩ := Option.map_eq_some_iff.mp h
    cases h
    simp only [Shop.lockJob] at hs
    split at hs
    · rename_i d₀ hd₀
      split at hs
      · rename_i hfree
        obtain ⟨rfl, rfl, hw⟩ := hfree
        cases hs
        rcases job_modify hd with ⟨hk, hd⟩ | ⟨rfl, d₁, hd₁, rfl⟩
        · exact hsame (by simpa [ShopReq.delivers] using hk) hd
        · obtain rfl := Option.some.inj (hd₀.symm.trans hd₁)
          exact .taken hd₀ hw
      · cases hs
    · cases hs
  | _ => cases h; exact hsame rfl hd

theorem job_surroundings {e : ShopEnv} (h : w.surroundings e = some w')
    (hd : w'.jobs[j]? = some d) : JobStep w n j (.env e) d := by
  have hsame : w.jobs[j]? = some d → JobStep w n j (.env e) d :=
    fun hd => .same hd fun r he => by cases he
  cases e with
  | flush k =>
    obtain ⟨ev, _, h⟩ := Option.map_eq_some_iff.mp h
    cases h
    exact hsame hd
  | promote k =>
    cases h
    rcases job_modify hd with ⟨-, hd⟩ | ⟨rfl, d₀, hd₀, rfl⟩
    · exact hsame hd
    · split
      · rename_i hdelayed
        exact .again hd₀ (.inl hdelayed)
      · rename_i hnot
        rw [if_neg hnot] at hsame
        exact hsame hd₀
  | redeliver k =>
    cases h
    rcases job_modify hd with ⟨-, hd⟩ | ⟨rfl, d₀, hd₀, rfl⟩
    · exact hsame hd
    · exact .again hd₀ (.inr rfl)
  | _ => cases h; exact hsame hd

end Step

section Runs

variable {ok : System.Guard apiSig Err ShopReq ShopRes (IdemKv × Shop) Pick ShopEnv} {n : Nat}
  {catalog : ObjectId → Option ProductDoc} {c c' : ShopConfig} {a : ShopAct} {j : Nat} {d : Job}

theorem job_step (h : shopSystem.Reachable ok (freshShop n catalog) c)
    (hs : shopSystem.step c a = some c') (hd : c'.world.2.jobs[j]? = some d) :
    JobStep c.world.2 c.pool.length j a d := by
  cases a with
  | arrive r =>
    obtain ⟨w', hw, rfl⟩ := Option.map_eq_some_iff.mp hs
    exact job_accept hw hd
  | call i f =>
    obtain ⟨id, r, o, k, tr, out, w', hp, hx, rfl⟩ := System.callStep_eq_some hs
    obtain rfl : id = i := h.id_eq rfl i _ hp
    rcases call_effect hx with heq | ⟨op, q, a, rfl, hstore⟩
    · exact .same (congrArg Shop.jobs heq ▸ hd) fun r he => by cases he
    · exact job_store hstore hd
  | tick t => cases hs; exact .same hd fun r he => by cases he
  | env e =>
    obtain ⟨w', hw, rfl⟩ := Option.map_eq_some_iff.mp hs
    obtain ⟨s, he, rfl⟩ := Option.map_eq_some_iff.mp hw
    exact job_surroundings he hd

/-- An active job is in the hands of a delivery, the one whose number is the lock. -/
theorem attempt_of (h : shopSystem.Reachable ok (freshShop n catalog) c) {lock : Nat}
    (hd : c.world.2.jobs[j]? = some d) (hlock : d.state = .active lock) :
    ∃ t : ShopThread, c.pool[lock]? = some t ∧ t.req = .deliver j d.queue d.orderId := by
  let I : ShopConfig → Prop := fun c => ∀ (j : Nat) (d : Job) (lock : Nat),
    c.world.2.jobs[j]? = some d → d.state = .active lock →
      ∃ t : ShopThread, c.pool[lock]? = some t ∧ t.req = .deliver j d.queue d.orderId
  refine h.invariant (I := I) (fun j d lock hd => by cases hd) ?_ j d lock hd hlock
  intro c a c' hr ih hoka hs j d lock hd hlock
  -- a delivery of before the step is still one
  have hold : ∀ {d₀ : Job}, c.world.2.jobs[j]? = some d₀ → d₀.state = .active lock →
      d.queue = d₀.queue → d.orderId = d₀.orderId →
      ∃ t : ShopThread, c'.pool[lock]? = some t ∧ t.req = .deliver j d.queue d.orderId := by
    intro d₀ hd₀ hlock₀ hqueue hoid
    obtain ⟨t, ht, hreq⟩ := ih j d₀ lock hd₀ hlock₀
    have hlater : shopSystem.Reachable ok c c' := .step .init hoka hs
    obtain ⟨t', ht', hreq', -⟩ := (hlater.later.2 lock).1 t ht
    exact ⟨t', ht', by rw [hreq', hreq, hqueue, hoid]⟩
  cases job_step hr hs hd with
  | same hd₀ ha => exact hold hd₀ hlock rfl rfl
  | added queue oid hj => cases hlock
  | taken hd₀ hw =>
    obtain ⟨w', hacc, rfl⟩ := Option.map_eq_some_iff.mp hs
    cases hlock
    exact ⟨_, List.getElem?_concat_length, rfl⟩
  | @completed i f d₀ hd₀ ha =>
    rw [Job.complete, if_pos ha] at hlock
    cases hlock
  | @failed i f d₀ hd₀ ha =>
    rw [Job.fail, if_pos ha] at hlock
    dsimp only at hlock
    split at hlock <;> cases hlock
  | again hd₀ he => cases hlock

/-- The requests that have arrived, after one more action. -/
theorem step_reqs (hs : shopSystem.step c a = some c') :
    (∃ r, a = .arrive r ∧ c'.pool.map (·.req) = c.pool.map (·.req) ++ [r]) ∨
      ((∀ r, a ≠ .arrive r) ∧ c'.pool.map (·.req) = c.pool.map (·.req)) := by
  cases a with
  | arrive r =>
    obtain ⟨w', hacc, rfl⟩ := Option.map_eq_some_iff.mp hs
    exact .inl ⟨r, rfl, by simp⟩
  | call i f =>
    obtain ⟨id, r, o, k, tr, out, w', hp, hx, rfl⟩ := System.callStep_eq_some hs
    exact .inr ⟨fun r he => (by cases he), Collection.map_set_of_eq hp rfl⟩
  | tick t => cases hs; exact .inr ⟨fun r he => (by cases he), rfl⟩
  | env e =>
    obtain ⟨w', hw, rfl⟩ := Option.map_eq_some_iff.mp hs
    exact .inr ⟨fun r he => (by cases he), rfl⟩

/-- An action other than a delivery of the job makes no attempt of it. -/
theorem attempts_same (hs : shopSystem.step c a = some c')
    (ha : ∀ r, a = .arrive r → r.delivers j = false) : attempts c' j = attempts c j := by
  rcases step_reqs hs with ⟨r, rfl, hreqs⟩ | ⟨-, hreqs⟩
  · rw [attempts, hreqs, List.countP_append, List.countP_singleton, ha r rfl]
    rfl
  · rw [attempts, hreqs, attempts]

theorem attempts_delivery {queue : QueueName} {oid : String}
    (hs : shopSystem.step c (.arrive (.deliver j queue oid)) = some c') :
    attempts c' j = attempts c j + 1 := by
  rcases step_reqs hs with ⟨r, he, hreqs⟩ | ⟨hne, -⟩
  · obtain rfl := Act.arrive.inj he
    rw [attempts, hreqs, List.countP_append, List.countP_singleton, ShopReq.delivers,
      decide_eq_true rfl, attempts]
    rfl
  · exact absurd rfl (hne _)

/-- A job that was not added has no attempts. -/
theorem attempts_zero (h : shopSystem.Reachable ok (freshShop n catalog) c)
    (hj : c.world.2.jobs.length ≤ j) : attempts c j = 0 := by
  rw [attempts, List.countP_eq_zero]
  intro r hr
  obtain ⟨t, ht, rfl⟩ := List.mem_map.mp hr
  cases hreq : t.req with
  | deliver k queue oid =>
    have hkey := delivered_at h t ht k queue oid hreq
    have hlt := (List.getElem?_eq_some_iff.mp hkey).1
    rw [Shop.jobKeys, List.length_map] at hlt
    simp only [ShopReq.delivers, decide_eq_true_eq]
    omega
  | _ => simp [ShopReq.delivers]

/-- The attempts of a job, by how they went. -/
structure Job.Counted (d : Job) (n : Nat) : Prop where
  attempts : n = d.attemptsMade + d.unfailed
  retried : d.state ≠ .failed → d.attemptsMade < JOB_ATTEMPTS
  spent : d.state = .failed → d.attemptsMade = JOB_ATTEMPTS

theorem attempts_made {queue : QueueName} (hok : ∀ c a, ok c a → retriesOnly queue c a = true)
    (h : shopSystem.Reachable ok (freshShop n catalog) c) (hd : c.world.2.jobs[j]? = some d)
    (hq : d.queue = queue) : d.Counted (attempts c j) := by
  let I : ShopConfig → Prop := fun c => ∀ (j : Nat) (d : Job),
    c.world.2.jobs[j]? = some d → d.queue = queue → d.Counted (attempts c j)
  refine h.invariant (I := I) (fun j d hd => by cases hd) ?_ j d hd hq
  intro c a c' hr ih hoka hs j d hd hq
  cases job_step hr hs hd with
  | same hd₀ ha =>
    rw [attempts_same hs ha]
    exact ih j d hd₀ hq
  | added queue' oid hj =>
    rw [attempts_same hs (fun r he => by cases he), attempts_zero hr hj.le]
    exact ⟨rfl, fun _ => Nat.succ_pos 2, fun he => by cases he⟩
  | @taken d₀ hd₀ hw =>
    obtain ⟨hcount, hretried, -⟩ := ih j d₀ hd₀ hq
    refine ⟨?_, fun _ => hretried (by rw [hw]; exact fun he => by cases he), fun he => by cases he⟩
    simp only [Job.unfailed, hw] at hcount ⊢
    rw [attempts_delivery hs, hcount]
  | @completed i f d₀ hd₀ ha =>
    rw [Job.complete, if_pos ha] at hq ⊢
    obtain ⟨hcount, hretried, -⟩ := ih j d₀ hd₀ hq
    refine ⟨?_, fun _ => hretried (by rw [ha]; exact fun he => by cases he), fun he => by cases he⟩
    simp only [Job.unfailed, ha] at hcount ⊢
    rw [attempts_same hs (fun r he => by cases he), hcount]
  | @failed i f d₀ hd₀ ha =>
    rw [Job.fail, if_pos ha] at hq ⊢
    obtain ⟨hcount, hretried, -⟩ := ih j d₀ hd₀ hq
    have hlt := hretried (by rw [ha]; exact fun he => by cases he)
    simp only [Job.unfailed, ha] at hcount
    rw [attempts_same hs (fun r he => by cases he)]
    by_cases hmore : d₀.attemptsMade + 1 < JOB_ATTEMPTS
    · simp only [hmore, if_true]
      exact ⟨hcount, fun _ => hmore, fun he => by cases he⟩
    · simp only [hmore, if_false]
      exact ⟨hcount, fun hne => absurd rfl hne, fun _ => le_antisymm hlt (Nat.le_of_not_lt hmore)⟩
  | @again e d₀ hd₀ he =>
    obtain ⟨hcount, hretried, hspent⟩ := ih j d₀ hd₀ hq
    have hqueued : d₀.queued = true := by
      rcases he with hdelayed | rfl
      · simp only [Job.queued, hdelayed]
      · have hall := hok _ _ hoka
        simpa [retriesOnly, hd₀, (show d₀.queue = queue from hq)] using hall
    have hunfailed : d₀.unfailed = 0 ∧ d₀.state ≠ .failed := by
      unfold Job.queued at hqueued
      unfold Job.unfailed
      split at hqueued
      · rename_i hst; rw [hst]; exact ⟨rfl, fun he => by cases he⟩
      · rename_i hst; rw [hst]; exact ⟨rfl, fun he => by cases he⟩
      · cases hqueued
    rw [hunfailed.1] at hcount
    rw [attempts_same hs (fun r he => by cases he)]
    exact ⟨hcount, fun _ => hretried hunfailed.2, fun he => by cases he⟩

end Runs

end Flashkart
