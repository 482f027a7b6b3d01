import Mathlib

/-!
# Async.Collection

A collection of documents, in insertion order. `findOneAndUpdate` changes one document that
matches its predicate, whichever the collection picks (`j`), and answers with the changed one; it
answers `none` only when no document matches. The facts below say what that does to the sum of a
quantity over the documents and to the list of their keys.
-/

namespace Async
namespace Collection

variable {D K G : Type}

def findOneAndUpdate (docs : List D) (p : D → Bool) (upd : D → D) (j : Nat) :
    Option (Option D × List D) :=
  match docs[j]? with
  | some d =>
    if p d then some (some (upd d), docs.set j (upd d))
    else if docs.any p then none else some (none, docs)
  | none => if docs.any p then none else some (none, docs)

/-- The two ways the update ends. -/
theorem findOneAndUpdate_cases {docs docs' : List D} {p : D → Bool} {upd : D → D} {j : Nat}
    {r : Option D} (h : findOneAndUpdate docs p upd j = some (r, docs')) :
    (∃ d, docs[j]? = some d ∧ p d = true ∧ r = some (upd d) ∧ docs' = docs.set j (upd d)) ∨
      (r = none ∧ docs' = docs ∧ ∀ d ∈ docs, p d = false) := by
  have hnone : ∀ {x : Option (Option D × List D)},
      (if docs.any p = true then none else some (none, docs)) = x → x = some (r, docs') →
      r = none ∧ docs' = docs ∧ ∀ d ∈ docs, p d = false := by
    intro x hx h
    subst hx
    split at h
    · cases h
    · rename_i hany
      cases h
      refine ⟨rfl, rfl, fun d hd => ?_⟩
      simpa using fun hp => hany (List.any_eq_true.mpr ⟨d, hd, hp⟩)
  unfold findOneAndUpdate at h
  split at h
  · rename_i d hd
    split at h
    · rename_i hp
      cases h
      exact .inl ⟨d, hd, hp, rfl, rfl⟩
    · exact .inr (hnone rfl h)
  · exact .inr (hnone rfl h)

/-- A sum is the entry at `j` plus the sum of all others. -/
theorem sum_eq_add_eraseIdx [AddCommMonoid G] (f : D → G) {docs : List D} {j : Nat} {d : D}
    (h : docs[j]? = some d) :
    (docs.map f).sum = f d + ((docs.eraseIdx j).map f).sum := by
  obtain ⟨hlt, rfl⟩ := List.getElem?_eq_some_iff.mp h
  have hlt' : j < (docs.map f).length := by simpa using hlt
  rw [← List.CommMonoid.add_sum_eraseIdx hlt', List.getElem_map, List.eraseIdx_map]

theorem sum_set [AddCommMonoid G] (f : D → G) {docs : List D} {j : Nat} {d : D} (d' : D)
    (h : docs[j]? = some d) :
    ((docs.set j d').map f).sum + f d = (docs.map f).sum + f d' := by
  have hlt := (List.getElem?_eq_some_iff.mp h).1
  rw [sum_eq_add_eraseIdx f h, sum_eq_add_eraseIdx f (List.getElem?_set_self (a := d') hlt),
    List.eraseIdx_set_eq, add_right_comm, add_comm (f d') (f d), add_right_comm]

theorem map_set_of_eq {key : D → K} {docs : List D} {j : Nat} {d d' : D} (h : docs[j]? = some d)
    (hk : key d' = key d) : (docs.set j d').map key = docs.map key := by
  rw [List.map_set, hk]
  refine List.ext_getElem? fun n => ?_
  by_cases hn : j = n
  · subst hn
    obtain ⟨hlt, rfl⟩ := List.getElem?_eq_some_iff.mp h
    simp [hlt]
  · rw [List.getElem?_set_ne hn]

theorem map_modify_of_eq {key : D → K} {f : D → D} (hf : ∀ d, key (f d) = key d) (docs : List D)
    (j : Nat) : (docs.modify j f).map key = docs.map key := by
  refine List.ext_getElem? fun n => ?_
  rw [List.getElem?_map, List.getElem?_map, List.getElem?_modify]
  cases docs[n]? with
  | none => rfl
  | some d =>
    by_cases hn : j = n
    · simp [hn, hf]
    · simp [hn]

/-- A sum of counts that is positive at `k` has a term that is. -/
theorem exists_of_sum_apply_pos {κ : Type} {f : α → κ → Nat} {l : List α} {k : κ}
    (h : 1 ≤ (l.map f).sum k) : ∃ a ∈ l, 1 ≤ f a k := by
  induction l with
  | nil => simp at h
  | cons a l ih =>
    rw [List.map_cons, List.sum_cons, Pi.add_apply] at h
    by_cases ha : 1 ≤ f a k
    · exact ⟨a, List.mem_cons_self .., ha⟩
    · obtain ⟨b, hb, hpos⟩ := ih (by omega)
      exact ⟨b, List.mem_cons_of_mem _ hb, hpos⟩

/-- A document with a fresh key. -/
theorem nodup_concat {key : D → K} {docs : List D} {d : D} (hn : (docs.map key).Nodup)
    (h : key d ∉ docs.map key) : ((docs ++ [d]).map key).Nodup := by
  rw [List.map_append, List.nodup_append]
  refine ⟨hn, by simp, ?_⟩
  intro a ha b hb hab
  rw [List.map_singleton, List.mem_singleton] at hb
  rw [hab, hb] at ha
  exact h ha

/-- With distinct keys, the document found under a key is the only one that has it. -/
theorem eq_of_key_eq {key : D → K} {docs : List D} (hn : (docs.map key).Nodup) {d e : D}
    (hd : d ∈ docs) (he : e ∈ docs) (h : key d = key e) : d = e :=
  List.inj_on_of_nodup_map hn hd he h

section Lookup

variable [DecidableEq K] {key : D → K} {docs : List D} {d d' : D} {k : K}

/-- The document under the key `k`. -/
def lookup (key : D → K) (docs : List D) (k : K) : Option D := docs.find? fun d => key d = k

theorem lookup_eq_some (hn : (docs.map key).Nodup) :
    lookup key docs k = some d ↔ d ∈ docs ∧ key d = k := by
  constructor
  · intro h
    exact ⟨List.mem_of_find?_eq_some h, by simpa using List.find?_some h⟩
  · rintro ⟨hd, rfl⟩
    cases hf : lookup key docs (key d) with
    | none =>
      have := List.find?_eq_none.mp hf d hd
      simp at this
    | some e =>
      have he := List.mem_of_find?_eq_some hf
      have hk : key e = key d := by simpa using List.find?_some hf
      rw [eq_of_key_eq hn he hd hk]

theorem lookup_eq_none : lookup key docs k = none ↔ k ∉ docs.map key := by
  simp [lookup, List.find?_eq_none]

theorem lookup_concat (h : key d ∉ docs.map key) :
    lookup key (docs ++ [d]) = Function.update (lookup key docs) (key d) (some d) := by
  funext k
  by_cases hk : k = key d
  · subst hk
    rw [Function.update_self, lookup, List.find?_append]
    rw [show docs.find? (fun e => key e = key d) = none from lookup_eq_none.mpr h]
    simp
  · rw [Function.update_of_ne hk, lookup, List.find?_append]
    simp [Ne.symm hk, lookup]

theorem lookup_set (hn : (docs.map key).Nodup) {j : Nat} (hd : docs[j]? = some d)
    (hk : key d' = key d) :
    lookup key (docs.set j d') = Function.update (lookup key docs) (key d) (some d') := by
  have hn' : ((docs.set j d').map key).Nodup := by rwa [map_set_of_eq hd hk]
  have hlt := (List.getElem?_eq_some_iff.mp hd).1
  funext k
  by_cases hkd : k = key d
  · subst hkd
    rw [Function.update_self, lookup_eq_some hn']
    exact ⟨List.mem_of_getElem? (List.getElem?_set_self hlt), hk⟩
  · rw [Function.update_of_ne hkd]
    refine Option.ext fun e => ?_
    rw [lookup_eq_some hn', lookup_eq_some hn]
    constructor
    · rintro ⟨he, rfl⟩
      rcases List.mem_or_eq_of_mem_set he with he | rfl
      · exact ⟨he, rfl⟩
      · exact absurd hk hkd
    · rintro ⟨he, rfl⟩
      refine ⟨?_, rfl⟩
      obtain ⟨n, hlt', rfl⟩ := List.getElem_of_mem he
      have hne : j ≠ n := by
        intro hjn
        subst hjn
        rw [List.getElem?_eq_getElem hlt'] at hd
        exact hkd (congrArg key (Option.some.inj hd))
      rw [← List.getElem_set_ne hne (by simpa using hlt')]
      exact List.getElem_mem _

theorem lookup_map {f : D → D} (hf : ∀ d, key (f d) = key d) :
    lookup key (docs.map f) k = (lookup key docs k).map f := by
  rw [lookup, List.find?_map, lookup]
  simp only [Function.comp_def, hf]

/-! What one sees who may see the documents that satisfy `p` alone. -/

/-- Under `k` there is no document, one that is hidden, or one that is seen. -/
def sight (key : D → K) (p : D → Bool) (docs : List D) (k : K) : Option (Option D) :=
  (lookup key docs k).map fun d => if p d then some d else none

variable {p : D → Bool} {docs' : List D}

theorem sight_hidden (hn : (docs.map key).Nodup) :
    sight key p docs k = some none ↔ ∃ d ∈ docs, key d = k ∧ p d = false := by
  simp only [sight, Option.map_eq_some_iff, lookup_eq_some hn, ite_eq_right_iff, reduceCtorEq,
    imp_false, Bool.not_eq_true, and_assoc]

theorem sight_seen (hn : (docs.map key).Nodup) :
    sight key p docs k = some (some d) ↔ d ∈ docs.filter p ∧ key d = k := by
  simp only [sight, Option.map_eq_some_iff, lookup_eq_some hn, List.mem_filter]
  constructor
  · rintro ⟨e, ⟨he, hk⟩, hp⟩
    split at hp
    · rename_i hpe
      obtain rfl := Option.some.inj hp
      exact ⟨⟨he, hpe⟩, hk⟩
    · cases hp
  · rintro ⟨⟨hd, hp⟩, hk⟩
    exact ⟨d, ⟨hd, hk⟩, if_pos hp⟩

/-- Two collections look the same under `k` when what may be seen of them is the same, and either
both hide a document there or neither. -/
theorem sight_congr (hn : (docs.map key).Nodup) (hn' : (docs'.map key).Nodup)
    (hseen : docs.filter p = docs'.filter p)
    (hhidden : sight key p docs k = some none ↔ sight key p docs' k = some none) :
    sight key p docs k = sight key p docs' k := by
  refine Option.ext fun x => ?_
  cases x with
  | none => exact hhidden
  | some d => rw [sight_seen hn, sight_seen hn', hseen]

end Lookup

end Collection
end Async
