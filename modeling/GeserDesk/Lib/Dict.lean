import Mathlib.Data.List.AList

/-!
# Finite dictionaries

`Dict K V` is a finite partial map with distinct keys: an association list whose
distinctness of keys is a field, so a key never has two values. It is Mathlib's `AList` at
a constant family; this file adds the operations a program table needs beyond it (an update
in place, a pointwise map, dropping every key of a list) and their lookup equations.
-/

universe u v w

/-- A finite partial map from `K` to `V`. -/
abbrev Dict (K : Type u) (V : Type v) : Type max u v := AList fun _ : K => V

namespace Dict

variable {K : Type u} {V : Type v} {W : Type w} [DecidableEq K]

/-- What the key is bound to, as a function of the key. -/
def get? (m : Dict K V) (k : K) : Option V := AList.lookup k m

/-- Bind `k` to `v`, whatever it was bound to before. -/
def put (m : Dict K V) (k : K) (v : V) : Dict K V := AList.insert k v m

/-- Unbind `k`. -/
def drop (m : Dict K V) (k : K) : Dict K V := AList.erase k m

/-- Change the value of `k`, if it has one. -/
def modify (m : Dict K V) (k : K) (f : V → V) : Dict K V :=
  match m.get? k with
  | some v => m.put k (f v)
  | none => m

/-- Apply `f` to every value. -/
def mapVals (m : Dict K V) (f : K → V → W) : Dict K W where
  entries := m.entries.map fun e => ⟨e.1, f e.1 e.2⟩
  nodupKeys := by
    have h : (m.entries.map fun e => (⟨e.1, f e.1 e.2⟩ : Sigma fun _ : K => W)).keys
        = m.entries.keys := by
      simp [List.keys, Function.comp_def]
    rw [List.NodupKeys, h]
    exact m.nodupKeys

/-- Unbind every key of `ks`. -/
def dropAll (m : Dict K V) (ks : List K) : Dict K V := ks.foldl drop m

/-! ## Lookup equations -/

/-- Nothing is bound in the empty table. -/
@[simp, grind =] theorem get?_empty (k : K) : (∅ : Dict K V).get? k = none := AList.lookup_empty k

/-- After a binding the key has the value, and every other key what it had. -/
@[simp, grind =] theorem get?_put (m : Dict K V) (k k' : K) (v : V) :
    (m.put k v).get? k' = if k' = k then some v else m.get? k' := by
  by_cases h : k' = k
  · rw [if_pos h, h]; exact AList.lookup_insert m
  · rw [if_neg h]; exact AList.lookup_insert_ne h

/-- After an unbinding the key has none. -/
@[simp, grind =] theorem get?_drop (m : Dict K V) (k k' : K) :
    (m.drop k).get? k' = if k' = k then none else m.get? k' := by
  by_cases h : k' = k
  · rw [if_pos h, h]; exact AList.lookup_erase k m
  · rw [if_neg h]; exact AList.lookup_erase_ne h

/-- A modification goes through the value, if there is one. -/
@[simp, grind =] theorem get?_modify (m : Dict K V) (k k' : K) (f : V → V) :
    (m.modify k f).get? k' = if k' = k then (m.get? k').map f else m.get? k' := by
  unfold modify
  cases h : m.get? k with
  | none =>
    by_cases hk : k' = k
    · rw [if_pos hk, hk, h]; rfl
    · rw [if_neg hk]
  | some v =>
    rw [get?_put]
    by_cases hk : k' = k
    · rw [if_pos hk, if_pos hk, hk, h]; rfl
    · rw [if_neg hk, if_neg hk]

/-- A lookup in a list of pairs whose values were mapped is the lookup mapped. -/
theorem dlookup_map_val (l : List (Sigma fun _ : K => V)) (f : K → V → W) (k : K) :
    (l.map fun e => (⟨e.1, f e.1 e.2⟩ : Sigma fun _ : K => W)).dlookup k
      = (l.dlookup k).map (f k) := by
  induction l with
  | nil => rfl
  | cons e l ih =>
    obtain ⟨k', v⟩ := e
    by_cases h : k = k'
    · subst h; simp
    · rw [List.map_cons, List.dlookup_cons_ne _ _ h, List.dlookup_cons_ne _ _ h, ih]

/-- The same of a table. -/
@[simp, grind =] theorem get?_mapVals (m : Dict K V) (f : K → V → W) (k : K) :
    (m.mapVals f).get? k = (m.get? k).map (f k) :=
  dlookup_map_val m.entries f k

/-- After several unbindings none of the keys has a value. -/
@[simp, grind =] theorem get?_dropAll (m : Dict K V) (ks : List K) (k : K) :
    (m.dropAll ks).get? k = if k ∈ ks then none else m.get? k := by
  induction ks generalizing m with
  | nil => simp [dropAll]
  | cons a ks ih =>
    have hstep : m.dropAll (a :: ks) = (m.drop a).dropAll ks := rfl
    rw [hstep, ih, get?_drop]
    by_cases hk : k ∈ ks
    · rw [if_pos hk, if_pos (List.mem_cons_of_mem a hk)]
    · by_cases ha : k = a
      · rw [if_neg hk, if_pos ha, if_pos (by simp [ha])]
      · rw [if_neg hk, if_neg ha, if_neg (by simp [ha, hk])]

/-- The entries are the pairs a lookup finds. -/
theorem mem_entries_iff (m : Dict K V) (k : K) (v : V) :
    (⟨k, v⟩ : Sigma fun _ : K => V) ∈ m.entries ↔ m.get? k = some v :=
  AList.mem_lookup_iff.symm

/-- The keys are those that have a value. -/
theorem mem_keys_iff (m : Dict K V) (k : K) : k ∈ m.keys ↔ (m.get? k).isSome :=
  (AList.mem_keys).symm.trans AList.lookup_isSome.symm

/-- Binding a key and unbinding it again unbinds it. -/
theorem drop_put (m : Dict K V) (k : K) (v : V) : (m.put k v).drop k = m.drop k :=
  AList.ext (List.kerase_cons_eq rfl)

/-- Unbinding a key that is not bound changes nothing. -/
theorem drop_of_none {m : Dict K V} {k : K} (h : m.get? k = none) : m.drop k = m := by
  refine AList.ext (List.kerase_of_notMem_keys fun hmem => ?_)
  have hsome : (m.get? k).isSome := (mem_keys_iff m k).mp hmem
  rw [h] at hsome
  cases hsome

/-! ## Which values a table holds

`m.Any p`: some key is bound to a value with `p`. The steps of a table of processes change
the value at one key, so what they do to `Any` is one equation. -/

/-- Some key is bound to a value with `p`. -/
def Any (m : Dict K V) (p : V → Prop) : Prop := ∃ k v, m.get? k = some v ∧ p v

variable {m : Dict K V} {p : V → Prop} {k : K} {old v : V}

/-- A key that is bound to such a value shows that there is one. -/
theorem Any.intro (h : m.get? k = some v) (hp : p v) : m.Any p := ⟨k, v, h, hp⟩

/-- The empty table holds no value. -/
theorem not_any_empty (p : V → Prop) : ¬ (∅ : Dict K V).Any p := by
  rintro ⟨k, v, h, -⟩
  rw [get?_empty] at h
  cases h

/-- A value that is in the table after binding was there before or is the new one. -/
theorem of_any_put (h : (m.put k v).Any p) : p v ∨ m.Any p := by
  obtain ⟨k', w, h, hp⟩ := h
  rw [get?_put] at h
  split at h
  · exact .inl (Option.some.inj h ▸ hp)
  · exact .inr ⟨k', w, h, hp⟩

/-- A value found after an unbinding was there before. -/
theorem of_any_drop (h : (m.drop k).Any p) : m.Any p := by
  obtain ⟨k', w, h, hp⟩ := h
  rw [get?_drop] at h
  split at h
  · cases h
  · exact ⟨k', w, h, hp⟩

/-- Binding a key that had no value with `p` adds the new value and keeps the others. -/
theorem any_put (hk : ∀ w, m.get? k = some w → ¬ p w) : (m.put k v).Any p ↔ p v ∨ m.Any p := by
  refine ⟨of_any_put, ?_⟩
  rintro (hp | ⟨k', w, h, hp⟩)
  · exact ⟨k, v, by rw [get?_put, if_pos rfl], hp⟩
  · refine ⟨k', w, ?_, hp⟩
    rw [get?_put, if_neg]
    · exact h
    · rintro rfl; exact hk w h hp

/-- Binding a free key adds its value and hides none. -/
theorem any_put_fresh (hk : m.get? k = none) : (m.put k v).Any p ↔ p v ∨ m.Any p :=
  any_put fun w hw => by rw [hk] at hw; cases hw

/-- Binding over a value without `p` hides none with `p`. -/
theorem any_put_of_not (hk : m.get? k = some old) (hold : ¬ p old) :
    (m.put k v).Any p ↔ p v ∨ m.Any p :=
  any_put fun w hw => by rw [hk, Option.some.injEq] at hw; exact hw ▸ hold

/-- Rebinding a key changes nothing for `p` when neither its old nor its new value has it. -/
theorem any_put_other (hk : m.get? k = some old) (hold : ¬ p old) (hnew : ¬ p v) :
    (m.put k v).Any p ↔ m.Any p := by
  rw [any_put_of_not hk hold]
  exact or_iff_right hnew

/-- Unbinding a value without `p` hides none with `p`. -/
theorem any_drop_of_not (hk : m.get? k = some old) (hold : ¬ p old) :
    (m.drop k).Any p ↔ m.Any p := by
  refine ⟨of_any_drop, ?_⟩
  rintro ⟨k', w, h, hp⟩
  refine ⟨k', w, ?_, hp⟩
  rw [get?_drop, if_neg]
  · exact h
  · rintro rfl; rw [hk, Option.some.injEq] at h; exact hold (h ▸ hp)

instance [DecidablePred p] : Decidable (m.Any p) :=
  decidable_of_iff (∃ e ∈ m.entries, p e.2) (by
    constructor
    · rintro ⟨⟨k, v⟩, he, hp⟩
      exact ⟨k, v, (mem_entries_iff m k v).mp he, hp⟩
    · rintro ⟨k, v, h, hp⟩
      exact ⟨⟨k, v⟩, (mem_entries_iff m k v).mpr h, hp⟩)

/-- Every key is bound to a value with `p`. -/
def All (m : Dict K V) (p : V → Prop) : Prop := ∀ k v, m.get? k = some v → p v

instance [DecidablePred p] : Decidable (m.All p) :=
  decidable_of_iff (∀ e ∈ m.entries, p e.2) (by
    constructor
    · intro h k v hk
      exact h ⟨k, v⟩ ((mem_entries_iff m k v).mpr hk)
    · rintro h ⟨k, v⟩ he
      exact h k v ((mem_entries_iff m k v).mp he))

end Dict
