import Mathlib.Data.List.Basic

/-!
# Labelled transition systems: runs, guarded runs and their invariants

A system is a set of initial states and a partial step function: `step s l = none` says that
the label `l` cannot happen in `s`. A *guarded* run is one all of whose steps meet a
condition `ok` on the state before the step and the label; the plain runs are those of the
trivial guard.

* **`Lts.Reach.invariant`**: what holds initially and is preserved by every step that meets
  the guard holds in every state a guarded run reaches.
* **`Lts.reach_of_exec`**: a concrete list of labels, executed, is a guarded run, so a trace
  can be checked by evaluation.
* **`Lts.Reach.mono`**: a weaker guard admits more runs.
* **`Lts.Run.invariant`**: the same for runs with the record of their steps (`Lts.Run`), for what
  is said of a state by what came before it.
-/

universe u v

/-- A labelled transition system: initial states, and a partial step function. -/
structure Lts (S : Type u) (L : Type v) where
  init : S → Prop
  step : S → L → Option S

namespace Lts

variable {S : Type u} {L : Type v} {M : Lts S L} {ok ok' : S → L → Prop}

/-- The states a run reaches all of whose steps meet `ok`. -/
inductive Reach (M : Lts S L) (ok : S → L → Prop) : S → Prop where
  | init {s : S} (h : M.init s) : Reach M ok s
  | step {s s' : S} {l : L} (hs : Reach M ok s) (hok : ok s l) (hl : M.step s l = some s') :
      Reach M ok s'

/-- The states any run reaches. -/
abbrev Reachable (M : Lts S L) : S → Prop := M.Reach fun _ _ => True

/-- Execute a list of labels, as long as every step is possible and meets the guard. -/
def exec (M : Lts S L) (ok : S → L → Prop) [∀ s l, Decidable (ok s l)] : S → List L → Option S
  | s, [] => some s
  | s, l :: ls =>
    if ok s l then
      match M.step s l with
      | some s' => exec M ok s' ls
      | none => none
    else none

/-- Execute a list of labels, as long as every step is possible. -/
def run (M : Lts S L) : S → List L → Option S
  | s, [] => some s
  | s, l :: ls =>
    match M.step s l with
    | some s' => run M s' ls
    | none => none

/-- A run makes its first step and then the others. -/
theorem run_cons {s t : S} {l : L} (hl : M.step s l = some t) (ls : List L) :
    M.run s (l :: ls) = M.run t ls := by
  rw [run, hl]

/-- Two stretches of a run follow each other. -/
theorem run_append {s t : S} {ls : List L} (h : M.run s ls = some t) (ls' : List L) :
    M.run s (ls ++ ls') = M.run t ls' := by
  induction ls generalizing s with
  | nil =>
    obtain rfl : s = t := Option.some.inj h
    rfl
  | cons l ls ih =>
    cases hl : M.step s l with
    | none =>
      rw [run, hl] at h
      cases h
    | some u =>
      rw [run_cons hl] at h
      rw [List.cons_append, run_cons hl, ih h]

/-- A weaker guard reaches more. -/
theorem Reach.mono (h : ∀ s l, ok s l → ok' s l) {s : S} (hs : M.Reach ok s) :
    M.Reach ok' s := by
  induction hs with
  | init h0 => exact .init h0
  | step _ hok hl ih => exact .step ih (h _ _ hok) hl

/-- A guarded run is a run. -/
theorem Reach.reachable {s : S} (hs : M.Reach ok s) : M.Reachable s :=
  hs.mono fun _ _ _ => trivial

/-- **The invariant rule.** The step premise may use that the state before is reached by a
guarded run, so invariants can be proved one after another. -/
theorem Reach.invariant {P : S → Prop} (hinit : ∀ s, M.init s → P s)
    (hstep : ∀ s l s', M.Reach ok s → P s → ok s l → M.step s l = some s' → P s')
    {s : S} (hs : M.Reach ok s) : P s := by
  induction hs with
  | init h0 => exact hinit _ h0
  | step hs hok hl ih => exact hstep _ _ _ hs ih hok hl

/-- Executing labels from a state reached reaches the end of them. -/
theorem reach_of_exec_from [∀ s l, Decidable (ok s l)] {s s' : S} {ls : List L}
    (hs : M.Reach ok s) (h : M.exec ok s ls = some s') : M.Reach ok s' := by
  induction ls generalizing s with
  | nil => rw [exec, Option.some.injEq] at h; exact h ▸ hs
  | cons l ls ih =>
    rw [exec] at h
    split at h
    · next hok =>
      cases hl : M.step s l with
      | none => rw [hl] at h; cases h
      | some t => rw [hl] at h; exact ih (.step hs hok hl) h
    · cases h

/-- A trace executed under the guard from an initial state is a guarded run. -/
theorem reach_of_exec [∀ s l, Decidable (ok s l)] {s s' : S} {ls : List L} (hi : M.init s)
    (h : M.exec ok s ls = some s') : M.Reach ok s' :=
  reach_of_exec_from (.init hi) h

/-- A trace executed from an initial state is a run. -/
theorem reachable_of_run {s s' : S} {ls : List L} (hi : M.init s)
    (h : M.run s ls = some s') : M.Reachable s' := by
  have key : ∀ (ls : List L) (t : S), M.Reachable t → M.run t ls = some s' → M.Reachable s' := by
    intro ls
    induction ls with
    | nil => intro t ht h; rw [run, Option.some.injEq] at h; exact h ▸ ht
    | cons l ls ih =>
      intro t ht h
      rw [run] at h
      cases hl : M.step t l with
      | none => rw [hl] at h; cases h
      | some t' => rw [hl] at h; exact ih t' (.step ht trivial hl) h
  exact key ls s (.init hi) h

/-! ## Runs with a record

A run with something noted at every step. The record is a function of the labels alone, so a
system with a record has the runs of the one without. -/

/-- The runs, with every step taken: the state it was taken in, and its label. -/
inductive Run (M : Lts S L) : List (S × L) → S → Prop where
  | init {s : S} (h : M.init s) : Run M [] s
  | step {hist : List (S × L)} {s s' : S} {l : L} (hr : Run M hist s) (hl : M.step s l = some s') :
      Run M (hist ++ [(s, l)]) s'

/-- A run with its record reaches its end. -/
theorem Run.reachable {hist : List (S × L)} {s : S} (h : M.Run hist s) : M.Reachable s := by
  induction h with
  | init h0 => exact .init h0
  | step _ hl ih => exact .step ih trivial hl

/-- The invariant rule for what is said of a state and the steps before it. -/
theorem Run.invariant {P : List (S × L) → S → Prop} (hinit : ∀ s, M.init s → P [] s)
    (hstep : ∀ hist s l s', M.Run hist s → P hist s → M.step s l = some s' →
      P (hist ++ [(s, l)]) s')
    {hist : List (S × L)} {s : S} (h : M.Run hist s) : P hist s := by
  induction h with
  | init h0 => exact hinit _ h0
  | step hr hl ih => exact hstep _ _ _ _ hr ih hl

/-- What a record holds of a step is the run that led to it. -/
theorem Run.before {hist : List (S × L)} {s t : S} {l : L} (h : M.Run hist s)
    (hmem : (t, l) ∈ hist) : ∃ earlier later, hist = earlier ++ (t, l) :: later ∧ M.Run earlier t := by
  induction h with
  | init h0 => cases hmem
  | @step hist s s' l' hr hl ih =>
    rcases List.mem_append.mp hmem with hmem | hlast
    · obtain ⟨earlier, later, rfl, hrun⟩ := ih hmem
      exact ⟨earlier, later ++ [(s, l')], by simp, hrun⟩
    · obtain ⟨rfl, rfl⟩ := Prod.mk.inj (List.mem_singleton.mp hlast)
      exact ⟨hist, [], rfl, hr⟩

/-- Execute a list of labels and keep the record. -/
def record (M : Lts S L) : List (S × L) → S → List L → Option (List (S × L) × S)
  | hist, s, [] => some (hist, s)
  | hist, s, l :: ls =>
    match M.step s l with
    | some s' => record M (hist ++ [(s, l)]) s' ls
    | none => none

/-- Executing labels with the record of their steps is a run with that record. -/
theorem run_of_record {hist hist' : List (S × L)} {s s' : S} {ls : List L} (hr : M.Run hist s)
    (h : M.record hist s ls = some (hist', s')) : M.Run hist' s' := by
  induction ls generalizing hist s with
  | nil =>
    rw [record, Option.some.injEq, Prod.mk.injEq] at h
    exact h.1 ▸ h.2 ▸ hr
  | cons l ls ih =>
    rw [record] at h
    cases hl : M.step s l with
    | none => rw [hl] at h; cases h
    | some t => rw [hl] at h; exact ih (.step hr hl) h

end Lts
