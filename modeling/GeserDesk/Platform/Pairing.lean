import GeserDesk.Platform.Capture

/-!
# Presses and releases in pairs

What a backend told the router of one key, or of one button, in order, and the two shapes it may
have: a press, its repeats counted from one, and the release; or the same with any counts.
-/

namespace GeserDesk

/-- What happened to one key, in order. -/
def keyActions (hid : Nat) (evs : List CaptureEvent) : List KeyAction :=
  evs.filterMap fun ev =>
    match ev with
    | .key k => if k.hid = hid then some k.action else none
    | _ => none

/-- What happened to one button, in order: whether it went down. -/
def buttonActions (button : Button) (evs : List CaptureEvent) : List Bool :=
  evs.filterMap fun ev =>
    match ev with
    | .button b down => if b = button then some down else none
    | _ => none

/-- The actions of a key are those before and the one an event adds, if it is this key's. -/
theorem keyActions_snoc_key (hid : Nat) (evs : List CaptureEvent) (k : KeyEvent) :
    keyActions hid (evs ++ [.key k])
      = if k.hid = hid then keyActions hid evs ++ [k.action] else keyActions hid evs := by
  split
  · next h => simp [keyActions, List.filterMap_append, h]
  · next h => simp [keyActions, List.filterMap_append, h]

/-- An event that is no key's adds nothing. -/
theorem keyActions_snoc_other (hid : Nat) (evs : List CaptureEvent) {ev : CaptureEvent}
    (h : ∀ k, ev ≠ .key k) : keyActions hid (evs ++ [ev]) = keyActions hid evs := by
  rw [keyActions, List.filterMap_append, List.filterMap_cons_none, List.filterMap_nil,
    List.append_nil]
  · rfl
  · cases ev with
    | key k => exact absurd rfl (h k)
    | _ => rfl

/-- One event more is one action more of its button. -/
theorem buttonActions_snoc_button (button b : Button) (evs : List CaptureEvent) (down : Bool) :
    buttonActions button (evs ++ [.button b down])
      = if b = button then buttonActions button evs ++ [down] else buttonActions button evs := by
  split
  · next h => simp [buttonActions, List.filterMap_append, h]
  · next h => simp [buttonActions, List.filterMap_append, h]

/-- Another event is no action of the button. -/
theorem buttonActions_snoc_other (button : Button) (evs : List CaptureEvent) {ev : CaptureEvent}
    (h : ∀ b down, ev ≠ .button b down) :
    buttonActions button (evs ++ [ev]) = buttonActions button evs := by
  rw [buttonActions, List.filterMap_append, List.filterMap_cons_none, List.filterMap_nil,
    List.append_nil]
  · rfl
  · cases ev with
    | button b down => exact absurd rfl (h b down)
    | _ => rfl

/-- Where a list of actions leads, one after another; `none` when one of them may not come. -/
def phase {σ α : Type} (step : σ → α → Option σ) (init : σ) (actions : List α) : Option σ :=
  actions.foldlM step init

/-- The phase after one action more is one step on. -/
theorem phase_snoc {σ α : Type} (step : σ → α → Option σ) (init : σ) (actions : List α) (a : α) :
    phase step init (actions ++ [a]) = (phase step init actions).bind fun s => step s a := by
  rw [phase, List.foldlM_append]
  cases h : actions.foldlM step init with
  | none => rw [phase, h]; rfl
  | some s =>
    rw [phase, h]
    show (step s a).bind some = step s a
    cases step s a <;> rfl

/-- Whether a key is down, and how often it has repeated since its press. -/
abbrev KeyPhase : Type := Option Nat

/-- Down, then repeats counted from one, then up. -/
def KeyPhase.step : KeyPhase → KeyAction → Option KeyPhase
  | none, .down => some (some 0)
  | some n, .repeat m => if m = n + 1 then some (some m) else none
  | some _, .up => some none
  | _, _ => none

/-- Down, then any repeats, then up. -/
def heldStep : Bool → KeyAction → Option Bool
  | false, .down => some true
  | true, .repeat _ => some true
  | true, .up => some false
  | _, _ => none

/-- Down, then up. -/
def clickStep : Bool → Bool → Option Bool
  | false, true => some true
  | true, false => some false
  | _, _ => none

end GeserDesk
