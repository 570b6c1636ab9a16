import Mathlib.Data.Finset.Basic

/-!
# Things pressed and released behind a filter

Something is pressed (again and again, if it repeats) and released; a filter swallows some of
these events, and an observer sees the others. A thing is *held* from its first press to its
release. The observer is stranded when it has something down that is up, and a hold is torn
when its first press was seen and its release was not.

* **`PressLog.Kept.observe`**: neither happens as long as no release of a thing the observer has
  down is swallowed, however often presses are.
-/

universe u

/-- What is down, which of it began with a press the observer saw, what the observer has down,
and how many holds were torn. -/
structure PressLog (α : Type u) where
  down : Finset α
  began : Finset α
  seen : Finset α
  torn : Nat := 0

namespace PressLog

variable {α : Type u}

/-- Everything down was pressed before the observer came under the filter. -/
def start (down : Finset α) : PressLog α := { down := down, began := down, seen := down }

/-- What the observer has down is down, and no hold was torn. -/
structure Kept (h : PressLog α) : Prop where
  seen_down : h.seen ⊆ h.down
  began_seen : h.began ⊆ h.seen
  torn : h.torn = 0

/-- At the start what is down was down before, and nothing has been torn apart. -/
theorem Kept.start (down : Finset α) : (PressLog.start down).Kept :=
  ⟨Finset.Subset.refl _, Finset.Subset.refl _, rfl⟩

variable [DecidableEq α]

def press (h : PressLog α) (a : α) (swallowed : Bool) : PressLog α :=
  { h with down := insert a h.down,
           began := if a ∈ h.down ∨ swallowed = true then h.began else insert a h.began,
           seen := if swallowed then h.seen else insert a h.seen }

def release (h : PressLog α) (a : α) (swallowed : Bool) : PressLog α :=
  { down := h.down.erase a,
    began := h.began.erase a,
    seen := if swallowed then h.seen else h.seen.erase a,
    torn := h.torn + (if swallowed = true ∧ a ∈ h.began then 1 else 0) }

def observe (h : PressLog α) (a : α) (isPress swallowed : Bool) : PressLog α :=
  if isPress then h.press a swallowed else h.release a swallowed

/-- A press, passed on or swallowed, tears nothing apart. -/
theorem Kept.press {h : PressLog α} (hk : h.Kept) (a : α) (swallowed : Bool) :
    (h.press a swallowed).Kept := by
  have hsub : h.seen ⊆ insert a h.down := hk.seen_down.trans (Finset.subset_insert _ _)
  cases swallowed with
  | true =>
    refine ⟨hsub, ?_, hk.torn⟩
    show (if a ∈ h.down ∨ true = true then h.began else insert a h.began) ⊆ h.seen
    rw [if_pos (Or.inr rfl)]
    exact hk.began_seen
  | false =>
    refine ⟨Finset.insert_subset (Finset.mem_insert_self _ _) hsub, ?_, hk.torn⟩
    show (if a ∈ h.down ∨ false = true then h.began else insert a h.began) ⊆ insert a h.seen
    split
    · exact hk.began_seen.trans (Finset.subset_insert _ _)
    · exact Finset.insert_subset_insert _ hk.began_seen

/-- A release that is swallowed only where its press was tears nothing apart. -/
theorem Kept.release {h : PressLog α} (hk : h.Kept) {a : α} {swallowed : Bool}
    (hseen : swallowed = true → a ∉ h.seen) : (h.release a swallowed).Kept := by
  cases swallowed with
  | true =>
    have hna := hseen rfl
    have hnb : a ∉ h.began := fun hb => hna (hk.began_seen hb)
    refine ⟨fun b hb => ?_, fun b hb => ?_, ?_⟩
    · exact Finset.mem_erase.mpr ⟨fun e => hna (e ▸ hb), hk.seen_down hb⟩
    · exact hk.began_seen (Finset.mem_of_mem_erase hb)
    · show h.torn + (if true = true ∧ a ∈ h.began then 1 else 0) = 0
      rw [if_neg fun hc => hnb hc.2, hk.torn]
  | false =>
    refine ⟨Finset.erase_subset_erase _ hk.seen_down, Finset.erase_subset_erase _ hk.began_seen, ?_⟩
    show h.torn + (if false = true ∧ a ∈ h.began then 1 else 0) = 0
    rw [if_neg (fun hc => (by cases hc.1)), hk.torn]

/-- **One event behind the filter.** -/
theorem Kept.observe {h : PressLog α} (hk : h.Kept) {a : α} {isPress swallowed : Bool}
    (hseen : isPress = false → swallowed = true → a ∉ h.seen) :
    (h.observe a isPress swallowed).Kept := by
  cases isPress with
  | true => exact hk.press a swallowed
  | false => exact hk.release (hseen rfl)

/-- The observer has a thing down after an event only if it had it before, or saw it pressed. -/
theorem mem_seen_observe {h : PressLog α} {a b : α} {isPress swallowed : Bool}
    (hb : b ∈ (h.observe a isPress swallowed).seen) :
    b ∈ h.seen ∨ (b = a ∧ isPress = true ∧ swallowed = false) := by
  cases isPress <;> cases swallowed <;>
    simp only [observe, press, release, Bool.false_eq_true, if_true, if_false, Finset.mem_insert,
      Finset.mem_erase] at hb <;> tauto

/-- Where every press is swallowed, the observer gets nothing down it did not have. -/
theorem mem_seen_of_swallowed {h : PressLog α} {a b : α} {isPress swallowed : Bool}
    (hp : isPress = true → swallowed = true) (hb : b ∈ (h.observe a isPress swallowed).seen) :
    b ∈ h.seen := by
  rcases mem_seen_observe hb with hb | ⟨-, hpress, hs⟩
  · exact hb
  · rw [hp hpress] at hs
    cases hs

end PressLog
