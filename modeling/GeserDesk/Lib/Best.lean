import Mathlib.Data.List.Basic

/-!
# The best of a list

A loop that goes through a list and keeps the best element so far, the first of those that tie.
-/

universe u

namespace Best

variable {α : Type u} (better : α → α → Prop) [DecidableRel better]

/-- One pass: keep `b` unless `c` is better. -/
def keep (best : Option α) (c : α) : Option α :=
  match best with
  | none => some c
  | some b => if better c b then some c else some b

def of (l : List α) : Option α := l.foldl (keep better) none

variable {better}

/-- Of nothing there is no best. -/
theorem of_nil : of better [] = none := rfl

/-- What is kept at the end is what was kept before, or an element that is better, and nothing
seen on the way is better than it. -/
theorem foldl_keep (htrans : ∀ a b c, better a b → better b c → better a c)
    (hirr : ∀ a, ¬ better a a) (l : List α) (b₀ : α) :
    ∃ b, l.foldl (keep better) (some b₀) = some b ∧ (b = b₀ ∨ b ∈ l ∧ better b b₀)
      ∧ ∀ a ∈ l, ¬ better a b := by
  induction l generalizing b₀ with
  | nil => exact ⟨b₀, rfl, .inl rfl, fun a ha => absurd ha List.not_mem_nil⟩
  | cons c l ih =>
    by_cases hc : better c b₀
    · obtain ⟨b, hb, hmem, hall⟩ := ih c
      refine ⟨b, ?_, .inr ?_, fun a ha => ?_⟩
      · rw [List.foldl_cons, keep, if_pos hc]
        exact hb
      · rcases hmem with rfl | ⟨hmem, hbc⟩
        · exact ⟨List.mem_cons_self, hc⟩
        · exact ⟨List.mem_cons_of_mem _ hmem, htrans _ _ _ hbc hc⟩
      · rcases List.mem_cons.mp ha with rfl | ha
        · rcases hmem with rfl | ⟨-, hbc⟩
          · exact hirr _
          · exact fun h => hirr _ (htrans _ _ _ h hbc)
        · exact hall a ha
    · obtain ⟨b, hb, hmem, hall⟩ := ih b₀
      refine ⟨b, ?_, hmem.imp_right (And.imp_left (List.mem_cons_of_mem _)), fun a ha => ?_⟩
      · rw [List.foldl_cons, keep, if_neg hc]
        exact hb
      · rcases List.mem_cons.mp ha with rfl | ha
        · rcases hmem with rfl | ⟨-, hbb⟩
          · exact hc
          · exact fun h => hc (htrans _ _ _ h hbb)
        · exact hall a ha

/-- A list that is not empty has a best element: one of the list that none is better than. -/
theorem of_spec (htrans : ∀ a b c, better a b → better b c → better a c)
    (hirr : ∀ a, ¬ better a a) {l : List α} (hl : l ≠ []) :
    ∃ b ∈ l, of better l = some b ∧ ∀ a ∈ l, ¬ better a b := by
  cases l with
  | nil => exact absurd rfl hl
  | cons c l =>
    obtain ⟨b, hb, hmem, hall⟩ := foldl_keep htrans hirr l c
    refine ⟨b, ?_, hb, fun a ha => ?_⟩
    · rcases hmem with rfl | ⟨hmem, -⟩
      · exact List.mem_cons_self
      · exact List.mem_cons_of_mem _ hmem
    · rcases List.mem_cons.mp ha with rfl | ha
      · rcases hmem with rfl | ⟨-, hbc⟩
        · exact hirr _
        · exact fun h => hirr _ (htrans _ _ _ h hbc)
      · exact hall a ha

end Best
