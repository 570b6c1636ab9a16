import Mathlib.Data.List.Basic

/-!
# Lists as tables

A row is added at the end and changed where it is, and keeps its place.

* **`Table.of_concat`**, **`Table.of_set`**, **`Table.of_modify`**: what is at a place afterwards
  is what was there before, or the row that was added or changed.
-/

universe u

namespace Table

variable {α : Type u} {rows : List α} {row row' other : α} {f : α → α} {i k : Nat}

/-- A row after one was added was there, or is that one. -/
theorem of_concat (h : (rows ++ [row])[k]? = some other) :
    rows[k]? = some other ∨ k = rows.length ∧ other = row := by
  rcases Nat.lt_trichotomy k rows.length with hlt | heq | hgt
  · rw [List.getElem?_append_left hlt] at h
    exact .inl h
  · subst heq
    rw [List.getElem?_concat_length] at h
    exact .inr ⟨rfl, (Option.some.inj h).symm⟩
  · rw [List.getElem?_eq_none (by rw [List.length_append, List.length_singleton]; omega)] at h
    cases h

/-- A row after one was set is that one, or was there. -/
theorem of_set (hi : rows[i]? = some row) (h : (rows.set i row')[k]? = some other) :
    (k = i ∧ other = row') ∨ (k ≠ i ∧ rows[k]? = some other) := by
  by_cases hki : k = i
  · subst hki
    obtain ⟨hlt, _⟩ := List.getElem?_eq_some_iff.mp hi
    rw [List.getElem?_set_self hlt] at h
    exact .inl ⟨rfl, (Option.some.inj h).symm⟩
  · rw [List.getElem?_set_ne (Ne.symm hki)] at h
    exact .inr ⟨hki, h⟩

/-- The same of one that was modified. -/
theorem of_modify (hi : rows[i]? = some row) (h : (rows.modify i f)[k]? = some other) :
    (k = i ∧ other = f row) ∨ (k ≠ i ∧ rows[k]? = some other) := by
  by_cases hki : k = i
  · subst hki
    rw [List.getElem?_modify_eq, hi] at h
    exact .inl ⟨rfl, (Option.some.inj h).symm⟩
  · rw [List.getElem?_modify_ne _ _ (Ne.symm hki)] at h
    exact .inr ⟨hki, h⟩

end Table
