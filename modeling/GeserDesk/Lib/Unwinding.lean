import GeserDesk.Lib.Transition

/-!
# Two runs that differ in one party's steps

`Paired M ok own s t`: two guarded runs that coincide up to some point and after it take the same
steps in the same order, except for steps `own` allows, which either run may take while the other
does not. A relation between states that such steps do not leave is an unwinding of the party's
influence.

* **`Lts.Paired.unwind`**: what relates a state to itself, and is kept by a common step and by a
  step of the party alone, relates the states of any such pair of runs.
* **`Lts.Paired.left_of_exec`**, **`Lts.Paired.both_of_exec`**: concrete lists of labels,
  executed, give such a pair.
-/

universe u v

namespace Lts

variable {S : Type u} {L : Type v} {M : Lts S L} {ok own : S → L → Prop}

/-- The pairs of states two guarded runs reach that differ in steps `own` allows. -/
inductive Paired (M : Lts S L) (ok own : S → L → Prop) : S → S → Prop where
  | start {s : S} (hs : M.Reach ok s) : Paired M ok own s s
  | both {s t s' t' : S} {l : L} (h : Paired M ok own s t) (hs : ok s l) (ht : ok t l)
      (hls : M.step s l = some s') (hlt : M.step t l = some t') : Paired M ok own s' t'
  | left {s t s' : S} {l : L} (h : Paired M ok own s t) (hown : own s l) (hok : ok s l)
      (hl : M.step s l = some s') : Paired M ok own s' t
  | right {s t t' : S} {l : L} (h : Paired M ok own s t) (hown : own t l) (hok : ok t l)
      (hl : M.step t l = some t') : Paired M ok own s t'

/-- Each of two paired states is reached by a run of its own. -/
theorem Paired.reach {s t : S} (h : M.Paired ok own s t) : M.Reach ok s ∧ M.Reach ok t := by
  induction h with
  | start hs => exact ⟨hs, hs⟩
  | both _ hs ht hls hlt ih => exact ⟨.step ih.1 hs hls, .step ih.2 ht hlt⟩
  | left _ _ hok hl ih => exact ⟨.step ih.1 hok hl, ih.2⟩
  | right _ _ hok hl ih => exact ⟨ih.1, .step ih.2 hok hl⟩

/-- **The unwinding rule.** Both step premises may use that the states are reached by guarded
runs. -/
theorem Paired.unwind {R : S → S → Prop} (hrefl : ∀ s, M.Reach ok s → R s s)
    (hsymm : ∀ s t, R s t → R t s)
    (hown : ∀ s t l s', M.Reach ok s → R s t → own s l → ok s l → M.step s l = some s' → R s' t)
    (hboth : ∀ s t l s' t', M.Reach ok s → M.Reach ok t → R s t → ok s l → ok t l →
      M.step s l = some s' → M.step t l = some t' → R s' t')
    {s t : S} (h : M.Paired ok own s t) : R s t := by
  induction h with
  | start hs => exact hrefl _ hs
  | both h hs ht hls hlt ih =>
    obtain ⟨hrs, hrt⟩ := h.reach
    exact hboth _ _ _ _ _ hrs hrt ih hs ht hls hlt
  | left h hown' hok hl ih => exact hown _ _ _ _ h.reach.1 ih hown' hok hl
  | right h hown' hok hl ih =>
    exact hsymm _ _ (hown _ _ _ _ h.reach.2 (hsymm _ _ ih) hown' hok hl)

/-- The party's steps, executed in the first run alone. -/
theorem Paired.left_of_exec [∀ s l, Decidable (ok s l)] [∀ s l, Decidable (own s l)] {s t s' : S}
    {ls : List L} (h : M.Paired ok own s t)
    (hls : M.exec (fun s l => own s l ∧ ok s l) s ls = some s') : M.Paired ok own s' t := by
  induction ls generalizing s with
  | nil => rw [exec, Option.some.injEq] at hls; exact hls ▸ h
  | cons l ls ih =>
    rw [exec] at hls
    split at hls
    · next hok =>
      cases hl : M.step s l with
      | none => rw [hl] at hls; cases hls
      | some u => rw [hl] at hls; exact ih (.left h hok.1 hok.2 hl) hls
    · cases hls

/-- Common steps, executed in both runs. -/
theorem Paired.both_of_exec [∀ s l, Decidable (ok s l)] {s t s' t' : S} {ls : List L}
    (h : M.Paired ok own s t) (hls : M.exec ok s ls = some s') (hlt : M.exec ok t ls = some t') :
    M.Paired ok own s' t' := by
  induction ls generalizing s t with
  | nil =>
    rw [exec, Option.some.injEq] at hls hlt
    exact hls ▸ hlt ▸ h
  | cons l ls ih =>
    rw [exec] at hls hlt
    split at hls
    case isFalse => cases hls
    next hs =>
    split at hlt
    case isFalse => cases hlt
    next ht =>
    cases hl : M.step s l with
    | none => rw [hl] at hls; cases hls
    | some u =>
      cases hl' : M.step t l with
      | none => rw [hl'] at hlt; cases hlt
      | some w =>
        rw [hl] at hls
        rw [hl'] at hlt
        exact ih (.both h hs ht hl hl') hls hlt

end Lts
