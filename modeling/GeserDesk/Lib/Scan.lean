import GeserDesk.Lib.Best
import Mathlib

/-!
# Scans of a list

The least and the greatest of a list as a fold finds them, and a scan that keeps its state in the
value it moves: a loop that starts from `v`, moves to every element that is better than where it is,
and takes being at `v` for not having moved yet. An element that is `v` makes it forget what it has
seen: it ends with the best of what comes after the last of these.
-/

universe u v

namespace Scan

/-! ## The least and the greatest -/

section Extremes

variable {α : Type u} {β : Type v} [LinearOrder β] (f : α → β) (a : α) (rest : List α)

/-- The fold finds the least value. -/
theorem isLeast_foldl_min : IsLeast (f '' {x | x ∈ a :: rest})
    (rest.foldl (fun l x => min l (f x)) (f a)) := by
  induction rest using List.reverseRecOn with
  | nil => simp [IsLeast, lowerBounds]
  | append_singleton rest x ih =>
    obtain ⟨⟨y, hy, hfy⟩, hlow⟩ := ih
    have hmem : ∀ z, z ∈ a :: (rest ++ [x]) ↔ z ∈ a :: rest ∨ z = x := by
      intro z
      rw [← List.cons_append, List.mem_append, List.mem_singleton]
    rw [List.foldl_append, List.foldl_cons, List.foldl_nil]
    constructor
    · rcases min_choice (rest.foldl (fun l x => min l (f x)) (f a)) (f x) with h | h
      · exact ⟨y, (hmem y).mpr (.inl hy), by rw [h, hfy]⟩
      · exact ⟨x, (hmem x).mpr (.inr rfl), h.symm⟩
    · rintro _ ⟨z, hz, rfl⟩
      rcases (hmem z).mp hz with hz | rfl
      · exact (min_le_left _ _).trans (hlow ⟨z, hz, rfl⟩)
      · exact min_le_right _ _

/-- The fold finds the greatest value. -/
theorem isGreatest_foldl_max : IsGreatest (f '' {x | x ∈ a :: rest})
    (rest.foldl (fun r x => max r (f x)) (f a)) :=
  isLeast_foldl_min (β := βᵒᵈ) f a rest

end Extremes

/-! ## A scan that moves

A scan for the best that takes whatever comes while it stands at its start `v`. A return to `v`
makes it start afresh. -/

variable {α : Type u} [DecidableEq α] (better : α → α → Prop) [DecidableRel better] (v : α)

/-- One pass. -/
def run (l : List α) : α :=
  l.foldl (fun best e => if best = v ∨ better e best then e else best) v

/-- What comes after the last `v`, all of the list where there is none. -/
def afterLast (l : List α) : List α := (l.reverse.takeWhile fun e => e ≠ v).reverse

variable {better v}

/-- Of a list without `v` all is after it. -/
theorem afterLast_of_notMem {l : List α} (h : v ∉ l) : afterLast v l = l := by
  have hall : l.reverse.takeWhile (fun e => decide (e ≠ v)) = l.reverse := by
    rw [List.takeWhile_eq_self_iff]
    intro e he
    have hne : e ≠ v := by
      rintro rfl
      exact h (List.mem_reverse.mp he)
    exact decide_eq_true hne
  rw [afterLast, hall, List.reverse_reverse]

/-- What is after the last `v` has none. -/
theorem notMem_afterLast (l : List α) : v ∉ afterLast v l := by
  intro h
  have hkept := List.mem_takeWhile_imp (List.mem_reverse.mp h)
  simp at hkept

/-- What is after the last `v` is all that follows it. -/
theorem afterLast_append_cons (pre : List α) {post : List α} (h : v ∉ post) :
    afterLast v (pre ++ v :: post) = post := by
  have hpost : ∀ e ∈ post.reverse, decide (e ≠ v) = true := by
    intro e he
    have hne : e ≠ v := by
      rintro rfl
      exact h (List.mem_reverse.mp he)
    exact decide_eq_true hne
  rw [afterLast, List.reverse_append, List.reverse_cons, List.append_assoc,
    List.takeWhile_append_of_pos hpost, List.singleton_append, List.takeWhile_cons_of_neg (by simp),
    List.append_nil, List.reverse_reverse]

/-- A list with a `v` in it, cut at the last one. -/
theorem exists_split {l : List α} (h : v ∈ l) : ∃ pre, l = pre ++ v :: afterLast v l := by
  obtain ⟨a, b, hsplit, hfirst⟩ := List.eq_append_cons_of_mem (List.mem_reverse.mpr h)
  have hl : l = b.reverse ++ v :: a.reverse := by
    rw [← List.reverse_reverse l, hsplit, List.reverse_append, List.reverse_cons, List.append_assoc]
    rfl
  refine ⟨b.reverse, ?_⟩
  have hlast : v ∉ a.reverse := fun hmem => hfirst (List.mem_reverse.mp hmem)
  rw [hl, afterLast_append_cons _ hlast]

/-! ## What the scan ends with

It ends with the first of the best after the last `v`, or at `v` where nothing follows. -/

/-- From an element other than `v` on, and with no `v` to come, the best so far is kept. -/
theorem foldl_eq_keep {l : List α} (h : v ∉ l) {b : α} (hb : b ≠ v) :
    l.foldl (fun best e => if best = v ∨ better e best then e else best) b
      = (l.foldl (Best.keep better) (some b)).getD v := by
  induction l generalizing b with
  | nil => rfl
  | cons e l ih =>
    rw [List.mem_cons, not_or] at h
    rw [List.foldl_cons, List.foldl_cons, Best.keep]
    by_cases he : better e b
    · rw [if_pos (Or.inr he), if_pos he, ih h.2 (Ne.symm h.1)]
    · rw [if_neg (not_or.mpr ⟨hb, he⟩), if_neg he, ih h.2 hb]

/-- Without an exact hit a scan gives the best, or the start where there is none. -/
theorem run_of_notMem {l : List α} (h : v ∉ l) : run better v l = (Best.of better l).getD v := by
  cases l with
  | nil => rfl
  | cons e l =>
    rw [List.mem_cons, not_or] at h
    rw [run, List.foldl_cons, if_pos (Or.inl rfl), foldl_eq_keep h.2 (Ne.symm h.1)]
    rfl

/-- An element that is `v` makes the scan start again. -/
theorem run_append_cons (hv : ∀ b, b ≠ v → better v b) (pre post : List α) :
    run better v (pre ++ v :: post) = run better v post := by
  rw [run, List.foldl_append, List.foldl_cons]
  by_cases hat : pre.foldl (fun best e => if best = v ∨ better e best then e else best) v = v
  · rw [if_pos (Or.inl hat)]
    rfl
  · rw [if_pos (Or.inr (hv _ hat))]
    rfl

/-- The scan ends with the best of what comes after the last `v`. -/
theorem run_eq (hv : ∀ b, b ≠ v → better v b) (l : List α) :
    run better v l = (Best.of better (afterLast v l)).getD v := by
  by_cases h : v ∈ l
  · obtain ⟨pre, hsplit⟩ := exists_split h
    have hpost := notMem_afterLast (v := v) l
    calc run better v l = run better v (pre ++ v :: afterLast v l) := by rw [← hsplit]
      _ = run better v (afterLast v l) := run_append_cons hv _ _
      _ = (Best.of better (afterLast v l)).getD v := run_of_notMem hpost
  · rw [afterLast_of_notMem h, run_of_notMem h]

/-- The scan ends with one of the list that none is better than, exactly if there is no `v` in the
list or nothing comes after it. -/
theorem run_best_iff (htrans : ∀ a b c, better a b → better b c → better a c)
    (hirr : ∀ a, ¬ better a a) (hv : ∀ b, b ≠ v → better v b) {l : List α} (hl : l ≠ []) :
    (run better v l ∈ l ∧ ∀ a ∈ l, ¬ better a (run better v l)) ↔ (v ∈ l → afterLast v l = []) := by
  constructor
  · rintro ⟨-, hbest⟩ hmem
    by_contra hpost
    obtain ⟨b, hb, hof, -⟩ := Best.of_spec htrans hirr hpost
    have hrun : run better v l = b := by rw [run_eq hv, hof]; rfl
    have hne : b ≠ v := by
      rintro rfl
      exact notMem_afterLast l hb
    rw [hrun] at hbest
    exact hbest v hmem (hv b hne)
  · intro hlast
    by_cases hmem : v ∈ l
    · have hrun : run better v l = v := by rw [run_eq hv, hlast hmem]; rfl
      rw [hrun]
      refine ⟨hmem, fun a _ hav => ?_⟩
      by_cases ha : a = v
      · exact hirr v (ha ▸ hav)
      · exact hirr v (htrans v a v (hv a ha) hav)
    · obtain ⟨b, hb, hof, hbest⟩ := Best.of_spec htrans hirr hl
      have hrun : run better v l = b := by rw [run_of_notMem hmem, hof]; rfl
      rw [hrun]
      exact ⟨hb, hbest⟩

end Scan
