import Mathlib.Data.List.Basic

/-!
# Folds that may fail

Rules for a `List.foldlM` whose steps give an error or a next state. A fold that goes through has
taken every step (`exists_ok_of_foldlM`), and one whose steps can all be taken goes through
(`foldlM_goes`, `foldlM_ok_iff`); what every step keeps it keeps (`foldlM_keeps`), and what every step adds it adds
(`foldlM_flatMap`).
-/

universe u v w x

variable {ε : Type u} {σ : Type v} {α : Type w} {f : σ → α → Except ε σ}

/-- A loop that succeeds made its first step and the others. -/
theorem foldlM_cons_ok {x : α} {xs : List α} {s s' : σ} :
    (x :: xs).foldlM f s = .ok s' ↔ ∃ s₁, f s x = .ok s₁ ∧ xs.foldlM f s₁ = .ok s' := by
  rw [List.foldlM_cons]
  cases hx : f s x with
  | error e => exact ⟨nofun, nofun⟩
  | ok s₁ =>
    constructor
    · exact fun h => ⟨s₁, rfl, h⟩
    · rintro ⟨s₂, h₂, h⟩
      cases h₂
      exact h

/-- Every element is taken from some state to some state. -/
theorem exists_ok_of_foldlM {xs : List α} {s s' : σ} (h : xs.foldlM f s = .ok s') {x : α}
    (hx : x ∈ xs) : ∃ a b, f a x = .ok b := by
  induction xs generalizing s with
  | nil => cases hx
  | cons y xs ih =>
    obtain ⟨s₁, hy, hrest⟩ := foldlM_cons_ok.mp h
    rcases List.mem_cons.mp hx with rfl | hx
    · exact ⟨s, s₁, hy⟩
    · exact ih hrest hx

/-- A fold goes through if every step can be taken from what the ones before it leave. -/
theorem foldlM_goes {P : σ → Prop} {xs : List α}
    (hstep : ∀ s, P s → ∀ x ∈ xs, ∃ s', f s x = .ok s' ∧ P s') {s : σ} (hs : P s) :
    ∃ s', xs.foldlM f s = .ok s' := by
  induction xs generalizing s with
  | nil => exact ⟨s, rfl⟩
  | cons x xs ih =>
    obtain ⟨s₁, hx, hs₁⟩ := hstep s hs x List.mem_cons_self
    obtain ⟨s', hrest⟩ := ih (fun s hs x hx => hstep s hs x (List.mem_cons_of_mem _ hx)) hs₁
    exact ⟨s', foldlM_cons_ok.mpr ⟨s₁, hx, hrest⟩⟩

/-- A fold goes through exactly if each step can be taken, when that is up to the element alone. -/
theorem foldlM_ok_iff {P : σ → Prop} {Q : α → Prop}
    (hstep : ∀ s x, P s → ((∃ s', f s x = .ok s') ↔ Q x))
    (hkeep : ∀ s x s', P s → f s x = .ok s' → P s') {xs : List α} {s : σ} (hs : P s) :
    (∃ s', xs.foldlM f s = .ok s') ↔ ∀ x ∈ xs, Q x := by
  induction xs generalizing s with
  | nil => exact ⟨fun _ => nofun, fun _ => ⟨s, rfl⟩⟩
  | cons x xs ih =>
    simp only [foldlM_cons_ok, List.forall_mem_cons]
    constructor
    · rintro ⟨s', s₁, hx, hrest⟩
      exact ⟨(hstep s x hs).mp ⟨s₁, hx⟩, (ih (hkeep s x s₁ hs hx)).mp ⟨s', hrest⟩⟩
    · rintro ⟨hx, hrest⟩
      obtain ⟨s₁, hx⟩ := (hstep s x hs).mpr hx
      obtain ⟨s', hrest⟩ := (ih (hkeep s x s₁ hs hx)).mpr hrest
      exact ⟨s', s₁, hx, hrest⟩

/-- A fold that fails does so at one of its steps. -/
theorem exists_error_of_foldlM {xs : List α} {s : σ} {e : ε} (h : xs.foldlM f s = .error e) :
    ∃ x ∈ xs, ∃ a, f a x = .error e := by
  induction xs generalizing s with
  | nil => cases h
  | cons x xs ih =>
    rw [List.foldlM_cons] at h
    cases hx : f s x with
    | error e' =>
      rw [hx] at h
      cases h
      exact ⟨x, List.mem_cons_self, s, hx⟩
    | ok s₁ =>
      rw [hx] at h
      obtain ⟨y, hy, a, hya⟩ := ih h
      exact ⟨y, List.mem_cons_of_mem _ hy, a, hya⟩

/-- What every step of a fold keeps, the fold keeps. -/
theorem foldlM_keeps {P : σ → Prop} (hstep : ∀ s x s', P s → f s x = .ok s' → P s')
    {xs : List α} {s s' : σ} (hs : P s) (h : xs.foldlM f s = .ok s') : P s' := by
  induction xs generalizing s with
  | nil =>
    obtain rfl : s = s' := Except.ok.inj h
    exact hs
  | cons x xs ih =>
    obtain ⟨s₁, hx, hrest⟩ := foldlM_cons_ok.mp h
    exact ih (hstep s x s₁ hs hx) hrest

/-- What holds of every step by itself, and of two steps if it holds of each, holds of all of
them. -/
theorem foldlM_flatMap {β : Type x} {R : σ → List β → σ → Prop} (hnil : ∀ s, R s [] s)
    (happend : ∀ {s s' s'' xs ys}, R s xs s' → R s' ys s'' → R s (xs ++ ys) s'')
    {g : α → List β} {xs : List α} {s s' : σ} (h : xs.foldlM f s = .ok s')
    (hf : ∀ x ∈ xs, ∀ s s', f s x = .ok s' → R s (g x) s') : R s (xs.flatMap g) s' := by
  induction xs generalizing s with
  | nil =>
    obtain rfl : s = s' := Except.ok.inj h
    exact hnil s
  | cons x xs ih =>
    obtain ⟨s₁, hx, hrest⟩ := foldlM_cons_ok.mp h
    have hhead := hf x List.mem_cons_self s s₁ hx
    have htail := ih hrest fun y hy => hf y (List.mem_cons_of_mem x hy)
    rw [List.flatMap_cons]
    exact happend hhead htail

/-- A fold over images, from an image, is the image of the fold. -/
theorem foldlM_map_map {σ' : Type v} {β : Type x} {φ : σ → σ'} {ψ : α → β}
    {g : σ' → β → Except ε σ'} (h : ∀ s x, g (φ s) (ψ x) = (f s x).map φ) (xs : List α) (s : σ) :
    (xs.map ψ).foldlM g (φ s) = (xs.foldlM f s).map φ := by
  induction xs generalizing s with
  | nil => rfl
  | cons x xs ih =>
    rw [List.map_cons, List.foldlM_cons, List.foldlM_cons, h]
    cases f s x with
    | error e => rfl
    | ok s₁ => exact ih s₁
