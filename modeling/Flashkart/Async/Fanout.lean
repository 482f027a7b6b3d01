import Mathlib.Data.List.Basic

/-!
# Async.Fanout

Publish and subscribe, with rooms. A message goes to every pod whose subscription is up, and each
pod hands what comes in, in its order, to those of its own clients that are in the message's room.
Nothing is kept for who is not there.

* `Net.step`        — one action: a message is published, a pod takes its next message, a client
  joins or leaves a room, and clients and pods come and go.
* `Runs`            — the actions of a run, and what they have published.
* `emitted_sublist` — no client gets a message twice, or two of them the other way round.
* `emitted_filter`  — a client that stays in a room gets all that is published for it.
-/

namespace Async
namespace Fanout

/-- `inbox` is what has come in and has not been handed on. -/
structure Pod (M : Type) where
  listening : Bool
  inbox : List M
  deriving DecidableEq

structure Client (R M : Type) where
  pod : Nat
  connected : Bool
  rooms : List R
  emitted : List M
  deriving DecidableEq

structure Net (R M : Type) where
  pods : List (Pod M)
  clients : List (Client R M)
  deriving DecidableEq

/-- Pods and clients are named by their places, which they keep. -/
inductive NetAct (R M : Type) where
  | publish (ms : List M)
  | attach
  | listen (p : Nat) (up : Bool)
  | close (p : Nat)
  | connect (p : Nat)
  | join (s : Nat) (r : R)
  | leave (s : Nat) (r : R)
  | disconnect (s : Nat)
  | handle (p : Nat)

variable {R M : Type}

def NetAct.published : NetAct R M → List M
  | .publish ms => ms
  | _ => []

namespace Net

def empty : Net R M := ⟨[], []⟩

def inbox (n : Net R M) (p : Nat) : List M := ((n.pods[p]?).map (·.inbox)).getD []

def listens (n : Net R M) (p : Nat) : Bool := (n.pods[p]?).any (·.listening)

/-- What is still to come to client `s` once it has taken the first `k` messages, and what its pod
has got and may emit. -/
def ahead (n : Net R M) (s k : Nat) : List M :=
  ((n.clients[s]?).map fun x => x.emitted.drop k ++ n.inbox x.pod).getD []

end Net

/-- What an action makes of pod `p`. -/
def Pod.after (a : NetAct R M) (p : Nat) (x : Pod M) : Pod M :=
  match a with
  | .publish ms => if x.listening then { x with inbox := x.inbox ++ ms } else x
  | .listen q up => if q = p then { x with listening := up } else x
  | .close q => if q = p then ⟨false, []⟩ else x
  | .handle q => if q = p then { x with inbox := x.inbox.tail } else x
  | _ => x

variable [DecidableEq R] {room : M → R}

namespace Client

def disconnect (x : Client R M) : Client R M := { x with connected := false, rooms := [] }

def hear (room : M → R) (m : M) (x : Client R M) : Client R M :=
  if room m ∈ x.rooms then { x with emitted := x.emitted ++ [m] } else x

/-- What an action makes of client `s`. -/
def after (room : M → R) (n : Net R M) (a : NetAct R M) (s : Nat) (x : Client R M) : Client R M :=
  match a with
  | .join t r => if t = s ∧ x.connected then { x with rooms := x.rooms.insert r } else x
  | .leave t r => if t = s then { x with rooms := x.rooms.filter (· ≠ r) } else x
  | .disconnect t => if t = s then x.disconnect else x
  | .close q => if q = x.pod then x.disconnect else x
  | .handle q => if q = x.pod then ((n.inbox q).head?.map fun m => x.hear room m).getD x else x
  | _ => x

end Client

namespace Net

def enabled (n : Net R M) : NetAct R M → Bool
  | .connect p => p < n.pods.length
  | .handle p => (n.inbox p).head?.isSome
  | _ => true

def newPods : NetAct R M → List (Pod M)
  | .attach => [⟨true, []⟩]
  | _ => []

def newClients : NetAct R M → List (Client R M)
  | .connect p => [⟨p, true, [], []⟩]
  | _ => []

def step (room : M → R) (n : Net R M) (a : NetAct R M) : Option (Net R M) :=
  if n.enabled a then
    some ⟨n.pods.mapIdx (fun p x => x.after a p) ++ newPods a,
      n.clients.mapIdx (fun s x => x.after room n a s) ++ newClients a⟩
  else none

end Net

/-! ## One action -/

section Step

variable {n n' : Net R M} {a : NetAct R M} {s p : Nat} {x x' : Client R M} {m : M} {r : R}

theorem step_eq_some (h : n.step room a = some n') : n.enabled a = true ∧
    n' = ⟨n.pods.mapIdx (fun p x => x.after a p) ++ Net.newPods a,
      n.clients.mapIdx (fun s x => x.after room n a s) ++ Net.newClients a⟩ := by
  simp only [Net.step] at h
  split at h
  · rename_i henabled
    exact ⟨henabled, (Option.some.inj h).symm⟩
  · cases h

theorem client_step (h : n.step room a = some n') (hx : n.clients[s]? = some x) :
    n'.clients[s]? = some (x.after room n a s) := by
  obtain ⟨-, rfl⟩ := step_eq_some h
  rw [List.getElem?_append_left (by simpa using (List.getElem?_eq_some_iff.mp hx).1)]
  simp [hx]

/-- A client was there before, or it is new and has nothing. -/
theorem client_before (h : n.step room a = some n') (hx : n'.clients[s]? = some x') :
    (∃ x, n.clients[s]? = some x ∧ x' = x.after room n a s) ∨
      (x'.rooms = [] ∧ x'.emitted = []) := by
  obtain ⟨-, rfl⟩ := step_eq_some h
  simp only [List.getElem?_append, List.length_mapIdx] at hx
  split at hx
  · rw [List.getElem?_mapIdx] at hx
    obtain ⟨x, hbefore, heq⟩ := Option.map_eq_some_iff.mp hx
    exact .inl ⟨x, hbefore, heq.symm⟩
  · right
    cases a with
    | connect p =>
      rw [Net.newClients, List.getElem?_singleton] at hx
      split at hx
      · cases hx
        exact ⟨rfl, rfl⟩
      · cases hx
    | _ => cases hx

theorem pod_step (h : n.step room a = some n') {y : Pod M} (hy : n.pods[p]? = some y) :
    n'.pods[p]? = some (y.after a p) := by
  obtain ⟨-, rfl⟩ := step_eq_some h
  rw [List.getElem?_append_left (by simpa using (List.getElem?_eq_some_iff.mp hy).1)]
  simp [hy]

theorem inbox_step (h : n.step room a = some n') :
    n'.inbox p = ((n.pods[p]?).map fun x => (x.after a p).inbox).getD [] := by
  cases hp : n.pods[p]? with
  | some y => rw [Net.inbox, pod_step h hp]; rfl
  | none =>
    obtain ⟨-, rfl⟩ := step_eq_some h
    have hlen := List.getElem?_eq_none_iff.mp hp
    rw [Net.inbox, List.getElem?_append_right (by simpa using hlen)]
    cases a with
    | attach => rw [Net.newPods, List.getElem?_singleton]; split <;> rfl
    | _ => rfl

theorem inbox_publish {ms : List M} (h : n.step room (.publish ms) = some n') :
    n'.inbox p = n.inbox p ++ if n.listens p then ms else [] := by
  rw [inbox_step h, Net.inbox, Net.listens]
  cases hp : n.pods[p]? with
  | none => rfl
  | some y =>
    show (y.after (.publish ms : NetAct R M) p).inbox = y.inbox ++ if y.listening then ms else []
    rw [Pod.after]
    split
    · rfl
    · exact (List.append_nil _).symm

theorem inbox_handle (h : n.step room (.handle p) = some n') :
    ∃ m, n.inbox p = m :: n'.inbox p := by
  obtain ⟨m, hm⟩ := Option.isSome_iff_exists.mp (step_eq_some h).1
  obtain ⟨rest, hrest⟩ := List.head?_eq_some_iff.mp hm
  refine ⟨m, ?_⟩
  rw [inbox_step h]
  rw [Net.inbox] at hrest ⊢
  cases hp : n.pods[p]? with
  | none => rw [hp] at hrest; cases hrest
  | some y =>
    rw [hp] at hrest
    have hinbox : y.inbox = m :: rest := hrest
    show y.inbox = m :: (y.after (.handle p : NetAct R M) p).inbox
    rw [Pod.after, if_pos rfl, hinbox, List.tail_cons]

/-- The other actions leave an inbox alone, or take it away. -/
theorem inbox_other (h : n.step room a = some n') (hpublish : ∀ ms, a ≠ .publish ms)
    (hhandle : a ≠ .handle p) : n'.inbox p = n.inbox p ∨ a = .close p ∧ n'.inbox p = [] := by
  rw [inbox_step h, Net.inbox]
  cases hp : n.pods[p]? with
  | none => exact .inl rfl
  | some y =>
    show (y.after a p).inbox = y.inbox ∨ a = .close p ∧ (y.after a p).inbox = []
    cases a with
    | publish ms => exact absurd rfl (hpublish ms)
    | listen q up => rw [Pod.after]; split <;> exact .inl rfl
    | close q =>
      rw [Pod.after]
      split
      · rename_i hq
        exact .inr ⟨congrArg _ hq, rfl⟩
      · exact .inl rfl
    | handle q =>
      rw [Pod.after, if_neg fun hq => hhandle (congrArg _ hq)]
      exact .inl rfl
    | _ => exact .inl rfl

theorem listens_step (h : n.step room a = some n') (hp : n.listens p = true)
    (hdown : a ≠ .listen p false) (hclose : a ≠ .close p) : n'.listens p = true := by
  rw [Net.listens] at hp
  cases hy : n.pods[p]? with
  | none => rw [hy] at hp; cases hp
  | some y =>
    rw [hy] at hp
    have hup : y.listening = true := hp
    rw [Net.listens, pod_step h hy]
    show (y.after a p).listening = true
    cases a with
    | publish ms => rw [Pod.after, if_pos hup]; exact hup
    | listen q up =>
      rw [Pod.after]
      split
      · rename_i hq
        subst hq
        cases up with
        | true => rfl
        | false => exact absurd rfl hdown
      · exact hup
    | close q => rw [Pod.after, if_neg fun hq => hclose (congrArg _ hq)]; exact hup
    | handle q => rw [Pod.after]; split <;> exact hup
    | _ => exact hup

/-! ## Rooms -/

@[simp] theorem hear_rooms : (x.hear room m).rooms = x.rooms := by
  rw [Client.hear]
  split <;> rfl

@[simp] theorem hear_pod : (x.hear room m).pod = x.pod := by
  rw [Client.hear]
  split <;> rfl

@[simp] theorem hear_connected : (x.hear room m).connected = x.connected := by
  rw [Client.hear]
  split <;> rfl

theorem hear_emitted :
    (x.hear room m).emitted = x.emitted ++ if room m ∈ x.rooms then [m] else [] := by
  rw [Client.hear]
  split
  · rfl
  · exact (List.append_nil _).symm

theorem after_pod : (x.after room n a s).pod = x.pod := by
  cases a with
  | join t r => rw [Client.after]; split <;> rfl
  | leave t r => rw [Client.after]; split <;> rfl
  | disconnect t => rw [Client.after]; split <;> rfl
  | close q => rw [Client.after]; split <;> rfl
  | handle q =>
    rw [Client.after]
    split
    · cases (n.inbox q).head? with
      | none => rfl
      | some m => exact hear_pod
    · rfl
  | _ => rfl

theorem after_handle {rest : List M} (hinbox : n.inbox x.pod = m :: rest) :
    x.after room n (.handle x.pod) s = x.hear room m := by
  rw [Client.after, if_pos rfl, hinbox]
  rfl

/-- Only its own pod emits to a client. -/
theorem after_emitted (ha : a ≠ .handle x.pod) : (x.after room n a s).emitted = x.emitted := by
  cases a with
  | join t r => rw [Client.after]; split <;> rfl
  | leave t r => rw [Client.after]; split <;> rfl
  | disconnect t => rw [Client.after]; split <;> rfl
  | close q => rw [Client.after]; split <;> rfl
  | handle q => rw [Client.after, if_neg fun hq => ha (congrArg _ hq)]
  | _ => rfl

theorem emitted_prefix : x.emitted <+: (x.after room n a s).emitted := by
  by_cases ha : a = .handle x.pod
  · subst ha
    rw [Client.after, if_pos rfl]
    cases (n.inbox x.pod).head? with
    | none => exact List.prefix_rfl
    | some m =>
      show x.emitted <+: (x.hear room m).emitted
      rw [hear_emitted]
      exact List.prefix_append _ _
  · exact after_emitted ha ▸ List.prefix_rfl

/-- A client is in the rooms it has joined. -/
theorem mem_after_rooms (hr : r ∈ (x.after room n a s).rooms) : r ∈ x.rooms ∨ a = .join s r := by
  cases a with
  | join t r' =>
    rw [Client.after] at hr
    split at hr
    · rename_i ht
      rcases List.mem_insert_iff.mp hr with rfl | hr
      · exact .inr (by rw [ht.1])
      · exact .inl hr
    · exact .inl hr
  | leave t r' =>
    rw [Client.after] at hr
    split at hr
    · exact .inl (List.mem_of_mem_filter hr)
    · exact .inl hr
  | disconnect t =>
    rw [Client.after] at hr
    split at hr
    · cases hr
    · exact .inl hr
  | close q =>
    rw [Client.after] at hr
    split at hr
    · cases hr
    · exact .inl hr
  | handle q =>
    rw [Client.after] at hr
    split at hr
    · cases hm : (n.inbox q).head? with
      | none => rw [hm] at hr; exact .inl hr
      | some m =>
        have hheard : r ∈ (x.hear room m).rooms := by
          rw [hm] at hr
          exact hr
        rw [hear_rooms] at hheard
        exact .inl hheard
    · exact .inl hr
  | _ => exact .inl hr

/-- It stays connected and in a room unless it leaves the room or goes, or its pod does. -/
theorem after_stays (hconnected : x.connected = true) (hr : r ∈ x.rooms) (hleave : a ≠ .leave s r)
    (hgone : a ≠ .disconnect s) (hclose : a ≠ .close x.pod) :
    (x.after room n a s).connected = true ∧ r ∈ (x.after room n a s).rooms := by
  cases a with
  | join t r' =>
    rw [Client.after]
    split
    · exact ⟨hconnected, List.mem_insert_of_mem hr⟩
    · exact ⟨hconnected, hr⟩
  | leave t r' =>
    rw [Client.after]
    split
    · rename_i ht
      subst ht
      refine ⟨hconnected, List.mem_filter.mpr ⟨hr, decide_eq_true fun hrr => hleave (hrr ▸ rfl)⟩⟩
    · exact ⟨hconnected, hr⟩
  | disconnect t =>
    rw [Client.after, if_neg fun ht => hgone (congrArg _ ht)]
    exact ⟨hconnected, hr⟩
  | close q =>
    rw [Client.after, if_neg fun hq => hclose (congrArg _ hq)]
    exact ⟨hconnected, hr⟩
  | handle q =>
    rw [Client.after]
    split
    · cases (n.inbox q).head? with
      | none => exact ⟨hconnected, hr⟩
      | some m =>
        show (x.hear room m).connected = true ∧ r ∈ (x.hear room m).rooms
        rw [hear_connected, hear_rooms]
        exact ⟨hconnected, hr⟩
    · exact ⟨hconnected, hr⟩
  | _ => exact ⟨hconnected, hr⟩

/-- A message comes to a client in its room. -/
theorem emitted_step (h : n.step room a = some n') (hx : n'.clients[s]? = some x')
    (hm : m ∈ x'.emitted) :
    ∃ x, n.clients[s]? = some x ∧ (m ∈ x.emitted ∨ room m ∈ x.rooms) := by
  rcases client_before h hx with ⟨x, hbefore, rfl⟩ | ⟨-, hnone⟩
  · refine ⟨x, hbefore, ?_⟩
    by_cases ha : a = .handle x.pod
    · subst ha
      obtain ⟨m', hinbox⟩ := inbox_handle h
      rw [after_handle hinbox, hear_emitted] at hm
      rcases List.mem_append.mp hm with hm | hm
      · exact .inl hm
      · split at hm
        · rename_i hroom
          rw [List.mem_singleton.mp hm]
          exact .inr hroom
        · cases hm
    · rw [after_emitted ha] at hm
      exact .inl hm
  · rw [hnone] at hm
    cases hm

theorem rooms_step (h : n.step room a = some n') (hx : n'.clients[s]? = some x')
    (hr : r ∈ x'.rooms) : (∃ x, n.clients[s]? = some x ∧ r ∈ x.rooms) ∨ a = .join s r := by
  rcases client_before h hx with ⟨x, hbefore, rfl⟩ | ⟨hnone, -⟩
  · exact (mem_after_rooms hr).imp_left fun hr => ⟨x, hbefore, hr⟩
  · rw [hnone] at hr
    cases hr

end Step

/-! ## Runs -/

/-- From `n` to `n'` by actions that `ok` lets through, which have published `ms`. -/
inductive Runs (room : M → R) (ok : NetAct R M → Prop) (n : Net R M) : List M → Net R M → Prop
  | refl : Runs room ok n [] n
  | step {ms : List M} {n₁ n' : Net R M} {a : NetAct R M} : Runs room ok n ms n₁ → ok a →
      n₁.step room a = some n' → Runs room ok n (ms ++ a.published) n'

variable {ok ok' : NetAct R M → Prop} {n n' n'' : Net R M} {ms ms' : List M} {s p : Nat}
  {x : Client R M} {r : R}

theorem Runs.trans (h : Runs room ok n ms n') (h' : Runs room ok n' ms' n'') :
    Runs room ok n (ms ++ ms') n'' := by
  induction h' with
  | refl => rwa [List.append_nil]
  | step _ hok hs ih => rw [← List.append_assoc]; exact .step ih hok hs

/-- What has come to a client and what is in the inbox of its pod, one after the other, is some of
what was published, in its order. -/
structure Ordered (log : List M) (n : Net R M) : Prop where
  inbox : ∀ p, (n.inbox p).Sublist log
  emitted : ∀ (s : Nat) (x : Client R M), n.clients[s]? = some x →
    (x.emitted ++ n.inbox x.pod).Sublist log

theorem Ordered.step {log : List M} {a : NetAct R M} (hn : Ordered log n)
    (h : n.step room a = some n') : Ordered (log ++ a.published) n' := by
  have hgrow : ∀ {l : List M}, l.Sublist log → l.Sublist (log ++ a.published) := fun hl =>
    hl.trans (List.sublist_append_left _ _)
  -- an inbox that has not grown
  have hshrink : ∀ p, (∀ ms, a ≠ .publish ms) → (n'.inbox p).Sublist (n.inbox p) := by
    intro p hpublish
    by_cases hhandle : a = .handle p
    · subst hhandle
      obtain ⟨m, hm⟩ := inbox_handle h
      rw [hm]
      exact List.sublist_cons_self _ _
    · rcases inbox_other h hpublish hhandle with heq | ⟨-, heq⟩
      · rw [heq]
      · rw [heq]
        exact List.nil_sublist _
  by_cases hpublish : ∃ ms, a = .publish ms
  · obtain ⟨ms, rfl⟩ := hpublish
    have hmore : ∀ {l : List M} (p : Nat), l.Sublist log →
        (l ++ if n.listens p then ms else []).Sublist (log ++ ms) := by
      intro l p hl
      split
      · exact hl.append (List.Sublist.refl ms)
      · exact hl.append (List.nil_sublist ms)
    refine ⟨fun p => inbox_publish h ▸ hmore p (hn.inbox p), fun s x' hx => ?_⟩
    rcases client_before h hx with ⟨x, hbefore, heq⟩ | ⟨-, hnone⟩
    · obtain rfl : x' = x := heq
      rw [inbox_publish h, ← List.append_assoc]
      exact hmore _ (hn.emitted s x' hbefore)
    · rw [hnone, List.nil_append, inbox_publish h]
      exact hmore _ (hn.inbox _)
  · have hpublish : ∀ ms, a ≠ .publish ms := fun ms he => hpublish ⟨ms, he⟩
    refine ⟨fun p => hgrow ((hshrink p hpublish).trans (hn.inbox p)), fun s x' hx => ?_⟩
    rcases client_before h hx with ⟨x, hbefore, rfl⟩ | ⟨-, hnone⟩
    · rw [after_pod]
      refine hgrow (List.Sublist.trans ?_ (hn.emitted s x hbefore))
      by_cases hhandle : a = .handle x.pod
      · subst hhandle
        obtain ⟨m, hm⟩ := inbox_handle h
        rw [after_handle hm, hear_emitted, hm, List.append_assoc]
        refine (List.Sublist.refl _).append ?_
        split
        · exact .refl _
        · exact List.sublist_cons_self _ _
      · rw [after_emitted hhandle]
        exact (List.Sublist.refl _).append (hshrink _ hpublish)
    · rw [hnone, List.nil_append]
      exact hgrow ((hshrink _ hpublish).trans (hn.inbox _))

/-- **At most once, and in order.** -/
theorem emitted_sublist (h : Runs room ok Net.empty ms n) (hx : n.clients[s]? = some x) :
    (x.emitted ++ n.inbox x.pod).Sublist ms := by
  have hordered : Ordered ms n := by
    clear hx
    induction h with
    | refl => exact ⟨fun p => .refl _, fun s x hx => by cases hx⟩
    | step _ _ hs ih => exact ih.step hs
  exact hordered.emitted s x hx

/-- A client of pod `p` that is in the room `r` while the pod listens; `heard` is what has come of
the room's messages, to the client or its pod. -/
def Tuned (room : M → R) (s p : Nat) (r : R) (heard : List M) (n : Net R M) : Prop :=
  ∃ x, n.clients[s]? = some x ∧ x.pod = p ∧ x.connected = true ∧ r ∈ x.rooms ∧
    n.listens p = true ∧ (x.emitted ++ n.inbox p).filter (fun m => room m = r) = heard

/-- A client that joins a room is tuned to it, if its pod listens. -/
theorem tuned_join (h : n.step room (.join s r) = some n') (hx : n.clients[s]? = some x)
    (hconnected : x.connected = true) (hlistens : n.listens x.pod = true) :
    Tuned room s x.pod r ((x.emitted ++ n.inbox x.pod).filter fun m => room m = r) n' := by
  have hafter : x.after room n (.join s r) s = { x with rooms := x.rooms.insert r } :=
    if_pos ⟨rfl, hconnected⟩
  have hinbox : n'.inbox x.pod = n.inbox x.pod := by
    rcases inbox_other h (fun ms he => by cases he) (fun he => by cases he) with heq | ⟨he, -⟩
    · exact heq
    · cases he
  refine ⟨_, client_step h hx, ?_⟩
  rw [hafter, hinbox]
  exact ⟨rfl, hconnected, List.mem_insert_self,
    listens_step h hlistens (fun he => by cases he) (fun he => by cases he), rfl⟩

/-- The client stays in the room, and its pod goes on listening. -/
def stays (s p : Nat) (r : R) (a : NetAct R M) : Prop :=
  a ≠ .leave s r ∧ a ≠ .disconnect s ∧ a ≠ .close p ∧ a ≠ .listen p false

omit [DecidableEq R] in
theorem stays_publish : stays s p r (.publish ms) := by
  refine ⟨?_, ?_, ?_, ?_⟩ <;> exact fun he => by cases he

theorem Tuned.step {heard : List M} {a : NetAct R M} (hn : Tuned room s p r heard n)
    (hstays : stays s p r a) (h : n.step room a = some n') :
    Tuned room s p r (heard ++ a.published.filter fun m => room m = r) n' := by
  obtain ⟨x, hx, rfl, hconnected, hr, hlistens, hheard⟩ := hn
  obtain ⟨hleave, hgone, hclose, hdown⟩ := hstays
  have hkept : (x.after room n a s).connected = true ∧ r ∈ (x.after room n a s).rooms :=
    after_stays hconnected hr hleave hgone hclose
  refine ⟨_, client_step h hx, after_pod, hkept.1, hkept.2, listens_step h hlistens hdown hclose,
    ?_⟩
  by_cases hpublish : ∃ ms, a = .publish ms
  · obtain ⟨ms, rfl⟩ := hpublish
    rw [inbox_publish h, if_pos hlistens, ← List.append_assoc, List.filter_append, ← hheard]
    rfl
  have hpublish : ∀ ms, a ≠ .publish ms := fun ms he => hpublish ⟨ms, he⟩
  have hnothing : a.published = [] := by
    cases a with
    | publish ms => exact absurd rfl (hpublish ms)
    | _ => rfl
  rw [hnothing, List.filter_nil, List.append_nil, ← hheard]
  by_cases hhandle : a = .handle x.pod
  · subst hhandle
    obtain ⟨m, hm⟩ := inbox_handle h
    rw [after_handle hm, hear_emitted, hm, List.append_assoc]
    split
    · rfl
    · rename_i hroom
      have hother : room m ≠ r := fun he => hroom (he ▸ hr)
      simp [hother]
  · rw [after_emitted hhandle]
    rcases inbox_other h hpublish hhandle with heq | ⟨hc, -⟩
    · rw [heq]
    · exact absurd hc hclose

omit [DecidableEq R] in
theorem ahead_eq {k : Nat} (hx : n.clients[s]? = some x) :
    n.ahead s k = x.emitted.drop k ++ n.inbox x.pod := by
  rw [Net.ahead, hx]
  rfl

/-- For a client that stays in a room, what is published for the room is still to come. -/
theorem Tuned.ahead {heard : List M} {a : NetAct R M} {k : Nat} (hn : Tuned room s p r heard n)
    (hstays : stays s p r a) (h : n.step room a = some n') (hx : n.clients[s]? = some x)
    (hk : k ≤ x.emitted.length) :
    (n'.ahead s k).filter (fun m => room m = r) =
      (n.ahead s k).filter (fun m => room m = r) ++ a.published.filter fun m => room m = r := by
  obtain ⟨x₀, hx₀, rfl, -, -, -, hheard⟩ := id hn
  obtain rfl := Option.some.inj (hx₀.symm.trans hx)
  obtain ⟨y, hy, hpod, -, -, -, hafter⟩ := hn.step hstays h
  obtain rfl := Option.some.inj ((client_step h hx).symm.trans hy)
  obtain ⟨more, hmore⟩ : x₀.emitted <+: (x₀.after room n a s).emitted := emitted_prefix
  rw [ahead_eq hy, ahead_eq hx, hpod]
  have hsplit : ∀ rest, (x₀.emitted ++ rest).filter (fun m => room m = r) =
      (x₀.emitted.take k).filter (fun m => room m = r) ++
        (x₀.emitted.drop k ++ rest).filter fun m => room m = r := by
    intro rest
    rw [← List.filter_append, ← List.append_assoc, List.take_append_drop]
  rw [← hmore, List.append_assoc, hsplit, ← hheard, hsplit, List.append_assoc] at hafter
  rw [← hmore, List.drop_append_of_le_length hk, List.append_assoc]
  exact List.append_cancel_left hafter

/-- **Nothing is left out.** What a client that stays in a room has got of the room, and what is in
the inbox of its pod, grows by what is published for the room. -/
theorem Tuned.runs {heard : List M} (hn : Tuned room s p r heard n)
    (h : Runs room (stays s p r) n ms n') :
    Tuned room s p r (heard ++ ms.filter fun m => room m = r) n' := by
  induction h with
  | refl => rwa [List.filter_nil, List.append_nil]
  | step _ hok hs ih =>
    rw [List.filter_append, ← List.append_assoc]
    exact ih.step hok hs

end Fanout
end Async
