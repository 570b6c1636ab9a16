import Mathlib.Data.Finset.Basic
import GeserDesk.Client.Inject
import GeserDesk.Lib.Transition

/-!
# The client's input sink and the operating system

The system has a set of keys and a set of buttons pressed, which the sink's actions change. A
physical key is mapped to what it was pressed as when it went down, and stays so until it is
released or the cursor leaves. Which key of the system the injection library presses for a key
it is asked for is the library's, `code`.

* **`nothing_stuck_after_leave`**: after a leave nothing is pressed, in every run.
* **`pressed_iff_held`**: at every moment a key or a button of the system is pressed exactly when
  a physical one mapped to it is down, in every run in which nothing is released that another
  physical key or button still holds (`SoleHolder`).
* **`shared_alt_is_lifted`**: the two Alt keys share one key of the system, and the first to be
  released lifts it under the other.
-/

namespace GeserDesk

variable {κ : Type} [DecidableEq κ]

/-- What is pressed. -/
structure OsInput (κ : Type) where
  keys : Finset κ
  buttons : Finset EBtn

namespace OsInput

def apply (code : EKey → κ) (o : OsInput κ) : OsAction → OsInput κ
  | .pressKey key => { o with keys := insert (code key) o.keys }
  | .releaseKey key => { o with keys := o.keys.erase (code key) }
  | .pressButton b => { o with buttons := insert b o.buttons }
  | .releaseButton b => { o with buttons := o.buttons.erase b }
  | .moveTo _ _ | .moveBy _ _ | .scroll _ _ => o

def applyAll (code : EKey → κ) (o : OsInput κ) (acts : List OsAction) : OsInput κ :=
  acts.foldl (apply code) o

end OsInput

/-- What is physically down since the last leave: each key with what it was mapped to when it
was pressed, and the buttons. -/
structure Physical where
  keys : Dict Nat EKey := ∅
  buttons : Finset Button := ∅

structure SinkRun (κ : Type) where
  sink : EnigoSink
  os : OsInput κ
  physical : Physical := {}

inductive SinkLabel where
  | enter (p : Point)
  | leave
  /-- A key event, with what the layout of the focused window says at that moment. -/
  | key (layout : KeyLayout) (ev : KeyEvent)
  | mouse (ev : MouseEvent)

namespace Physical

/-- A key goes down, or repeats, and is done as `typed`. -/
def press (p : Physical) (hid : Nat) : Typed → Physical
  | .held key => if (p.keys.get? hid).isSome then p else { p with keys := p.keys.put hid key }
  | .ignored | .text _ => p

def key (p : Physical) (typed : Typed) (ev : KeyEvent) : Physical :=
  match ev.action with
  | .down | .repeat _ => p.press ev.hid typed
  | .up => { p with keys := p.keys.drop ev.hid }

def mouse (p : Physical) : MouseEvent → Physical
  | .button b true => { p with buttons := insert b p.buttons }
  | .button b false => { p with buttons := p.buttons.erase b }
  | _ => p

end Physical

namespace SinkRun

def step (code : EKey → κ) (s : SinkRun κ) : SinkLabel → Option (SinkRun κ)
  | .enter p =>
    let (sink, acts) := s.sink.enter p
    some { s with sink := sink, os := s.os.applyAll code acts }
  | .leave =>
    let (sink, acts) := s.sink.leave
    some { sink := sink, os := s.os.applyAll code acts, physical := {} }
  | .key layout ev =>
    let (sink, acts) := s.sink.key layout ev
    some { sink := sink, os := s.os.applyAll code acts,
           physical := s.physical.key (typedAs s.sink.target layout s.sink.perform ev) ev }
  | .mouse ev =>
    let (sink, acts) := s.sink.mouse ev
    some { sink := sink, os := s.os.applyAll code acts, physical := s.physical.mouse ev }

end SinkRun

/-- The sink and the operating system, as a transition system. -/
def sinkRuns (code : EKey → κ) : Lts (SinkRun κ) SinkLabel where
  init s := ∃ target perform,
    s = { sink := { target := target, perform := perform }, os := ⟨∅, ∅⟩ }
  step := SinkRun.step code

/-- A key of the system is pressed exactly when a physical key mapped to it is down, and a
button when a physical one mapped to it is. -/
structure PressedIffHeld (code : EKey → κ) (s : SinkRun κ) : Prop where
  keys : ∀ c, c ∈ s.os.keys ↔ ∃ hid key, s.physical.keys.get? hid = some key ∧ code key = c
  buttons : ∀ b, b ∈ s.os.buttons ↔ ∃ b' ∈ s.physical.buttons, mapButton b' = b

/-- What a step releases, no other physical key or button that is down is mapped to: a key or a
button that comes up, and a character that is typed as text. -/
def SoleHolder (code : EKey → κ) (s : SinkRun κ) : SinkLabel → Prop
  | .key layout ev =>
    match ev.action with
    | .up => ∀ key ∈ s.physical.keys.get? ev.hid,
        ∀ e ∈ s.physical.keys.entries, e.1 ≠ ev.hid → code e.2 ≠ code key
    | .down | .repeat _ =>
      match typedAs s.sink.target layout s.sink.perform ev with
      | .text key => ∀ e ∈ s.physical.keys.entries, code e.2 ≠ code key
      | .held _ | .ignored => True
  | .mouse (.button b false) => ∀ b' ∈ s.physical.buttons, b' ≠ b → mapButton b' ≠ mapButton b
  | _ => True

instance (code : EKey → κ) (s : SinkRun κ) (l : SinkLabel) : Decidable (SoleHolder code s l) := by
  unfold SoleHolder
  split
  · split
    · infer_instance
    all_goals split <;> infer_instance
  all_goals infer_instance

/-! ## What the actions do

Releasing lets go of a key or a button, and nothing else is touched. -/

namespace OsInput

variable (code : EKey → κ)

/-- Releasing keys leaves what none of them is. -/
theorem mem_applyAll_releaseKey (o : OsInput κ) (keys : List EKey) (c : κ) :
    c ∈ (o.applyAll code (keys.map .releaseKey)).keys ↔ c ∈ o.keys ∧ ∀ k ∈ keys, code k ≠ c := by
  induction keys generalizing o with
  | nil => simp [applyAll]
  | cons k keys ih =>
    have hstep : o.applyAll code ((k :: keys).map .releaseKey)
        = (o.apply code (.releaseKey k)).applyAll code (keys.map .releaseKey) := rfl
    rw [hstep, ih]
    simp only [apply, Finset.mem_erase, List.forall_mem_cons]
    tauto

/-- Releasing a list of buttons releases those and no others. -/
theorem mem_applyAll_releaseButton (o : OsInput κ) (bs : List EBtn) (b : EBtn) :
    b ∈ (o.applyAll code (bs.map .releaseButton)).buttons ↔ b ∈ o.buttons ∧ b ∉ bs := by
  induction bs generalizing o with
  | nil => simp [applyAll]
  | cons b' bs ih =>
    have hstep : o.applyAll code ((b' :: bs).map .releaseButton)
        = (o.apply code (.releaseButton b')).applyAll code (bs.map .releaseButton) := rfl
    rw [hstep, ih]
    simp only [apply, Finset.mem_erase, List.mem_cons]
    tauto

/-- Releasing keys leaves the buttons. -/
theorem applyAll_releaseKey_buttons (o : OsInput κ) (keys : List EKey) :
    (o.applyAll code (keys.map .releaseKey)).buttons = o.buttons := by
  induction keys generalizing o with
  | nil => rfl
  | cons k keys ih => exact ih (o.apply code (.releaseKey k))

/-- Releasing buttons leaves the keys. -/
theorem applyAll_releaseButton_keys (o : OsInput κ) (bs : List EBtn) :
    (o.applyAll code (bs.map .releaseButton)).keys = o.keys := by
  induction bs generalizing o with
  | nil => rfl
  | cons b bs ih => exact ih (o.apply code (.releaseButton b))

end OsInput

/-- What a leave leaves pressed: what was pressed and no entry of the tables is mapped to. -/
theorem EnigoSink.leave_spec (code : EKey → κ) (s : EnigoSink) (o : OsInput κ) :
    (∀ c, c ∈ (o.applyAll code s.leave.2).keys
        ↔ c ∈ o.keys ∧ ∀ hid key, s.heldKeys.get? hid = some key → code key ≠ c)
      ∧ ∀ b, b ∈ (o.applyAll code s.leave.2).buttons
        ↔ b ∈ o.buttons ∧ ∀ n, s.heldButtons.get? n = some () → mapButton (decodeButton n) ≠ b := by
  have hacts : s.leave.2 = (s.heldKeys.entries.map fun e => e.2).map OsAction.releaseKey
      ++ (s.heldButtons.entries.map fun e => mapButton (decodeButton e.1)).map .releaseButton := by
    rw [leave, List.map_map, List.map_map]
    rfl
  have hall : ∀ o : OsInput κ, o.applyAll code s.leave.2
      = (o.applyAll code ((s.heldKeys.entries.map fun e => e.2).map OsAction.releaseKey)).applyAll
          code ((s.heldButtons.entries.map fun e => mapButton (decodeButton e.1)).map
            .releaseButton) := fun o => by rw [hacts, OsInput.applyAll, List.foldl_append]; rfl
  constructor
  · intro c
    rw [hall, OsInput.applyAll_releaseButton_keys, OsInput.mem_applyAll_releaseKey]
    refine and_congr_right fun _ => ⟨fun h hid key hk => ?_, fun h key hk => ?_⟩
    · exact h key (List.mem_map.mpr ⟨⟨hid, key⟩, (Dict.mem_entries_iff _ _ _).mpr hk, rfl⟩)
    · obtain ⟨⟨hid, key⟩, he, rfl⟩ := List.mem_map.mp hk
      exact h hid key ((Dict.mem_entries_iff _ _ _).mp he)
  · intro b
    rw [hall, OsInput.mem_applyAll_releaseButton, OsInput.applyAll_releaseKey_buttons]
    refine and_congr_right fun _ => ⟨fun h n hn hb => h ?_, fun h hmem => ?_⟩
    · exact List.mem_map.mpr ⟨⟨n, ()⟩, (Dict.mem_entries_iff _ _ _).mpr hn, hb⟩
    · obtain ⟨⟨n, u⟩, he, hb⟩ := List.mem_map.mp hmem
      exact h n ((Dict.mem_entries_iff _ _ _).mp he) hb

/-! ## What holds in every run

Whatever is down, the sink knows of it. Leaving lets go of all. -/

variable {code : EKey → κ}

/-- The sink remembers every physical key, and whatever is pressed it remembers. -/
structure SinkInv (code : EKey → κ) (s : SinkRun κ) : Prop where
  same : s.physical.keys = s.sink.heldKeys
  keys : ∀ c ∈ s.os.keys, ∃ hid key, s.sink.heldKeys.get? hid = some key ∧ code key = c
  buttons : ∀ b ∈ s.os.buttons, ∃ n, s.sink.heldButtons.get? n = some ()
    ∧ mapButton (decodeButton n) = b

/-- **What a leave leaves pressed is nothing.** -/
theorem SinkInv.leave {s : SinkRun κ} (hi : SinkInv code s) :
    s.os.applyAll code s.sink.leave.2 = ⟨∅, ∅⟩ := by
  obtain ⟨hkeys, hbuttons⟩ := s.sink.leave_spec code s.os
  have hk : (s.os.applyAll code s.sink.leave.2).keys = ∅ := by
    refine Finset.eq_empty_of_forall_notMem fun c hc => ?_
    obtain ⟨hmem, hno⟩ := (hkeys c).mp hc
    obtain ⟨hid, key, hheld, hcode⟩ := hi.keys c hmem
    exact hno hid key hheld hcode
  have hb : (s.os.applyAll code s.sink.leave.2).buttons = ∅ := by
    refine Finset.eq_empty_of_forall_notMem fun b hb => ?_
    obtain ⟨hmem, hno⟩ := (hbuttons b).mp hb
    obtain ⟨n, hheld, hmap⟩ := hi.buttons b hmem
    exact hno n hheld hmap
  rw [← hk, ← hb]

/-- How a press is done, in the sink and physically. -/
theorem EnigoSink.press_eq (s : EnigoSink) (layout : KeyLayout) (ev : KeyEvent) :
    s.press layout ev = match typedAs s.target layout s.perform ev, s.heldKeys.get? ev.hid with
      | .ignored, _ => (s, [])
      | .text key, _ => (s, [.pressKey key, .releaseKey key])
      | .held _, some old => (s, [.pressKey old])
      | .held key, none => ({ s with heldKeys := s.heldKeys.put ev.hid key }, [.pressKey key]) := by
  unfold press
  cases typedAs s.target layout s.perform ev <;> cases s.heldKeys.get? ev.hid <;> rfl

/-- A key pressed adds what it presses to the record and to the system alike. -/
theorem SinkInv.press {s : SinkRun κ} (hi : SinkInv code s) (layout : KeyLayout) (ev : KeyEvent) :
    SinkInv code
      { sink := (s.sink.press layout ev).1,
        os := s.os.applyAll code (s.sink.press layout ev).2,
        physical := s.physical.press ev.hid (typedAs s.sink.target layout s.sink.perform ev) } := by
  rw [EnigoSink.press_eq]
  cases typedAs s.sink.target layout s.sink.perform ev with
  | ignored => exact hi
  | text key =>
    refine ⟨hi.same, fun c hc => ?_, hi.buttons⟩
    have hc : c ∈ (insert (code key) s.os.keys).erase (code key) := hc
    rw [Finset.mem_erase, Finset.mem_insert] at hc
    exact hi.keys c (hc.2.resolve_left hc.1)
  | held key =>
    cases hk : s.sink.heldKeys.get? ev.hid with
    | some old =>
      have hphys : s.physical.press ev.hid (.held key) = s.physical := by
        rw [Physical.press, hi.same, hk]; rfl
      rw [hphys]
      refine ⟨hi.same, fun c hc => ?_, hi.buttons⟩
      rcases Finset.mem_insert.mp hc with rfl | hc
      · exact ⟨ev.hid, old, hk, rfl⟩
      · exact hi.keys c hc
    | none =>
      have hphys : s.physical.press ev.hid (.held key)
          = { s.physical with keys := s.physical.keys.put ev.hid key } := by
        rw [Physical.press, hi.same, hk]; rfl
      rw [hphys]
      refine ⟨congrArg (·.put ev.hid key) hi.same, fun c hc => ?_, hi.buttons⟩
      show ∃ hid k, (s.sink.heldKeys.put ev.hid key).get? hid = some k ∧ code k = c
      rcases Finset.mem_insert.mp hc with rfl | hc
      · exact ⟨ev.hid, key, by rw [Dict.get?_put, if_pos rfl], rfl⟩
      · obtain ⟨hid, k, hh, hcode⟩ := hi.keys c hc
        have hne : hid ≠ ev.hid := fun e => by rw [e, hk] at hh; cases hh
        exact ⟨hid, k, by rw [Dict.get?_put, if_neg hne, hh], hcode⟩

/-- A key let go of takes what it pressed off the record and the system alike. -/
theorem SinkInv.lift {s : SinkRun κ} (hi : SinkInv code s) (hid : Nat) :
    SinkInv code
      { sink := (s.sink.lift hid).1, os := s.os.applyAll code (s.sink.lift hid).2,
        physical := { s.physical with keys := s.physical.keys.drop hid } } := by
  unfold EnigoSink.lift
  cases hk : s.sink.heldKeys.get? hid with
  | none =>
    refine ⟨?_, hi.keys, hi.buttons⟩
    show s.physical.keys.drop hid = s.sink.heldKeys
    rw [hi.same, Dict.drop_of_none hk]
  | some key =>
    refine ⟨congrArg (·.drop hid) hi.same, fun c hc => ?_, hi.buttons⟩
    obtain ⟨hne, hc⟩ := Finset.mem_erase.mp hc
    obtain ⟨hid', k, hh, hcode⟩ := hi.keys c hc
    have hne' : hid' ≠ hid := fun e => by
      rw [e, hk] at hh
      exact hne (hcode ▸ congrArg code (Option.some.inj hh).symm)
    refine ⟨hid', k, ?_, hcode⟩
    show (s.sink.heldKeys.drop hid).get? hid' = some k
    rw [Dict.get?_drop, if_neg hne', hh]

/-- A mouse event changes the record and the system alike. -/
theorem SinkInv.mouse {s : SinkRun κ} (hi : SinkInv code s) (ev : MouseEvent) :
    SinkInv code
      { sink := (s.sink.mouse ev).1, os := s.os.applyAll code (s.sink.mouse ev).2,
        physical := s.physical.mouse ev } := by
  cases ev with
  | moveAbs x y => exact hi
  | moveRel dx dy => exact hi
  | wheel dx dy =>
    have hos : s.os.applyAll code (s.sink.mouse (.wheel dx dy)).2 = s.os := by
      simp only [EnigoSink.mouse]
      split <;> split <;> rfl
    rw [hos]
    exact hi
  | button b down =>
    cases down with
    | true =>
      refine ⟨hi.same, hi.keys, fun b' hb' => ?_⟩
      show ∃ n, (s.sink.heldButtons.put (encodeButton b) ()).get? n = some ()
        ∧ mapButton (decodeButton n) = b'
      rcases Finset.mem_insert.mp hb' with rfl | hb'
      · exact ⟨encodeButton b, by rw [Dict.get?_put, if_pos rfl], mapButton_decode_encode b⟩
      · obtain ⟨n, hn, hmap⟩ := hi.buttons b' hb'
        refine ⟨n, ?_, hmap⟩
        rw [Dict.get?_put]
        split
        · rfl
        · exact hn
    | false =>
      refine ⟨hi.same, hi.keys, fun b' hb' => ?_⟩
      obtain ⟨hne, hb'⟩ := Finset.mem_erase.mp hb'
      obtain ⟨n, hn, hmap⟩ := hi.buttons b' hb'
      have hnn : n ≠ encodeButton b := fun e => by
        rw [e, mapButton_decode_encode] at hmap
        exact hne hmap.symm
      refine ⟨n, ?_, hmap⟩
      show (s.sink.heldButtons.drop (encodeButton b)).get? n = some ()
      rw [Dict.get?_drop, if_neg hnn, hn]

/-- **Every step keeps the record of the sink in step with the system.** -/
theorem SinkInv.step {s s' : SinkRun κ} {l : SinkLabel} (hi : SinkInv code s)
    (h : SinkRun.step code s l = some s') : SinkInv code s' := by
  cases l with
  | enter p => cases h; exact hi
  | leave =>
    have hos : s'.os = ⟨∅, ∅⟩ := by cases h; exact hi.leave
    have hsame : s'.physical.keys = s'.sink.heldKeys := by cases h; rfl
    refine ⟨hsame, fun c hc => ?_, fun b hb => ?_⟩
    · rw [hos] at hc
      exact absurd hc (Finset.notMem_empty c)
    · rw [hos] at hb
      exact absurd hb (Finset.notMem_empty b)
  | key layout ev =>
    cases h
    unfold Physical.key
    cases ev.action with
    | down => exact hi.press layout ev
    | «repeat» n => exact hi.press layout ev
    | up => exact hi.lift ev.hid
  | mouse ev => cases h; exact hi.mouse ev

/-- The invariant holds in every state reached. -/
theorem sinkInv {s : SinkRun κ} (hs : (sinkRuns code).Reachable s) : SinkInv code s := by
  refine hs.invariant (fun s h => ?_) fun s l s' _ hi _ hl => hi.step hl
  obtain ⟨target, perform, rfl⟩ := h
  exact ⟨rfl, fun c hc => absurd hc (Finset.notMem_empty c),
    fun b hb => absurd hb (Finset.notMem_empty b)⟩

/-- **After a leave nothing is pressed**, whatever was shared. -/
theorem nothing_stuck_after_leave {s s' : SinkRun κ} (hs : (sinkRuns code).Reachable s)
    (h : SinkRun.step code s .leave = some s') : s'.os = ⟨∅, ∅⟩ := by
  cases h
  exact (sinkInv hs).leave

/-! ## What holds when nothing shared is released

Two usages may be typed by the same key. Unless one of them is let go while the other is held,
what is down is what is held. -/

/-- A press by the only holder of its code presses what is held. -/
theorem PressedIffHeld.press {s : SinkRun κ} (hp : PressedIffHeld code s) (hi : SinkInv code s)
    {layout : KeyLayout} {ev : KeyEvent}
    (hok : ∀ key, typedAs s.sink.target layout s.sink.perform ev = .text key →
      ∀ e ∈ s.physical.keys.entries, code e.2 ≠ code key) :
    PressedIffHeld code
      { sink := (s.sink.press layout ev).1,
        os := s.os.applyAll code (s.sink.press layout ev).2,
        physical := s.physical.press ev.hid (typedAs s.sink.target layout s.sink.perform ev) } := by
  rw [EnigoSink.press_eq]
  cases ht : typedAs s.sink.target layout s.sink.perform ev with
  | ignored => exact hp
  | text key =>
    refine ⟨fun c => ?_, hp.buttons⟩
    show c ∈ (insert (code key) s.os.keys).erase (code key)
      ↔ ∃ hid k, s.physical.keys.get? hid = some k ∧ code k = c
    rw [Finset.mem_erase, Finset.mem_insert, ← hp.keys c]
    refine ⟨fun h => h.2.resolve_left h.1, fun h => ⟨?_, .inr h⟩⟩
    -- no key that is held is the one the text is typed with
    rintro rfl
    obtain ⟨hid, k, hk, hcode⟩ := (hp.keys _).mp h
    exact hok key ht ⟨hid, k⟩ ((Dict.mem_entries_iff _ _ _).mpr hk) hcode
  | held key =>
    cases hk : s.sink.heldKeys.get? ev.hid with
    | some old =>
      have hphys : s.physical.press ev.hid (.held key) = s.physical := by
        rw [Physical.press, hi.same, hk]; rfl
      rw [hphys]
      refine ⟨fun c => ?_, hp.buttons⟩
      show c ∈ insert (code old) s.os.keys ↔ _
      rw [Finset.mem_insert, hp.keys c]
      refine ⟨fun h => ?_, .inr⟩
      rcases h with rfl | h
      · exact ⟨ev.hid, old, hi.same ▸ hk, rfl⟩
      · exact h
    | none =>
      have hphys : s.physical.press ev.hid (.held key)
          = { s.physical with keys := s.physical.keys.put ev.hid key } := by
        rw [Physical.press, hi.same, hk]; rfl
      rw [hphys]
      refine ⟨fun c => ?_, hp.buttons⟩
      show c ∈ insert (code key) s.os.keys
        ↔ ∃ hid k, (s.physical.keys.put ev.hid key).get? hid = some k ∧ code k = c
      rw [Finset.mem_insert, hp.keys c]
      constructor
      · rintro (rfl | ⟨hid, k, hh, hcode⟩)
        · exact ⟨ev.hid, key, by rw [Dict.get?_put, if_pos rfl], rfl⟩
        · have hne : hid ≠ ev.hid := fun e => by rw [e, hi.same, hk] at hh; cases hh
          exact ⟨hid, k, by rw [Dict.get?_put, if_neg hne, hh], hcode⟩
      · rintro ⟨hid, k, hh, hcode⟩
        rw [Dict.get?_put] at hh
        split at hh
        · exact .inl (Option.some.inj hh ▸ hcode.symm)
        · exact .inr ⟨hid, k, hh, hcode⟩

/-- A release by the only holder of its code lets go of what was held. -/
theorem PressedIffHeld.lift {s : SinkRun κ} (hp : PressedIffHeld code s) (hi : SinkInv code s)
    {hid : Nat} (hok : ∀ key ∈ s.physical.keys.get? hid,
      ∀ e ∈ s.physical.keys.entries, e.1 ≠ hid → code e.2 ≠ code key) :
    PressedIffHeld code
      { sink := (s.sink.lift hid).1, os := s.os.applyAll code (s.sink.lift hid).2,
        physical := { s.physical with keys := s.physical.keys.drop hid } } := by
  unfold EnigoSink.lift
  cases hk : s.sink.heldKeys.get? hid with
  | none =>
    refine ⟨fun c => ?_, hp.buttons⟩
    show c ∈ s.os.keys ↔ ∃ hid' k, (s.physical.keys.drop hid).get? hid' = some k ∧ code k = c
    rw [Dict.drop_of_none (by rw [hi.same, hk])]
    exact hp.keys c
  | some key =>
    have hphys : s.physical.keys.get? hid = some key := by rw [hi.same, hk]
    refine ⟨fun c => ?_, hp.buttons⟩
    show c ∈ s.os.keys.erase (code key)
      ↔ ∃ hid' k, (s.physical.keys.drop hid).get? hid' = some k ∧ code k = c
    rw [Finset.mem_erase, hp.keys c]
    constructor
    · rintro ⟨hne, hid', k, hh, hcode⟩
      have hne' : hid' ≠ hid := fun e => by
        rw [e, hphys] at hh
        exact hne (hcode ▸ congrArg code (Option.some.inj hh).symm)
      exact ⟨hid', k, by rw [Dict.get?_drop, if_neg hne', hh], hcode⟩
    · rintro ⟨hid', k, hh, hcode⟩
      rw [Dict.get?_drop] at hh
      split at hh
      · cases hh
      · next hne' =>
        refine ⟨fun e => ?_, hid', k, hh, hcode⟩
        exact hok key hphys ⟨hid', k⟩ ((Dict.mem_entries_iff _ _ _).mpr hh) hne' (hcode.trans e)

/-- A button goes by itself. -/
theorem PressedIffHeld.button {s : SinkRun κ} (hp : PressedIffHeld code s) {b : Button}
    {down : Bool} (hok : SoleHolder code s (.mouse (.button b down))) :
    PressedIffHeld code
      { sink := (s.sink.mouse (.button b down)).1,
        os := s.os.applyAll code (s.sink.mouse (.button b down)).2,
        physical := s.physical.mouse (.button b down) } := by
  cases down with
  | true =>
    refine ⟨hp.keys, fun c => ?_⟩
    show c ∈ insert (mapButton b) s.os.buttons ↔ ∃ b' ∈ insert b s.physical.buttons, mapButton b' = c
    rw [Finset.mem_insert, hp.buttons c, Finset.exists_mem_insert]
    exact or_congr_left eq_comm
  | false =>
    refine ⟨hp.keys, fun c => ?_⟩
    show c ∈ s.os.buttons.erase (mapButton b) ↔ ∃ b' ∈ s.physical.buttons.erase b, mapButton b' = c
    rw [Finset.mem_erase, hp.buttons c]
    constructor
    · rintro ⟨hne, b', hb', hmap⟩
      exact ⟨b', Finset.mem_erase.mpr ⟨fun e => hne (e ▸ hmap.symm), hb'⟩, hmap⟩
    · rintro ⟨b', hb', hmap⟩
      obtain ⟨hne, hb'⟩ := Finset.mem_erase.mp hb'
      exact ⟨fun e => hok b' hb' hne (hmap.trans e), b', hb', hmap⟩

/-- In a run without shared codes every step keeps what is pressed and what is held the same. -/
theorem PressedIffHeld.step {s s' : SinkRun κ} {l : SinkLabel} (hp : PressedIffHeld code s)
    (hi : SinkInv code s) (hok : SoleHolder code s l) (h : SinkRun.step code s l = some s') :
    PressedIffHeld code s' := by
  -- entering presses nothing; leaving lets everything go
  cases l with
  | enter p => cases h; exact hp
  | leave =>
    have hos : s'.os = ⟨∅, ∅⟩ := by cases h; exact hi.leave
    have hphys : s'.physical = {} := by cases h; rfl
    refine ⟨fun c => ?_, fun b => ?_⟩
    · rw [hos, hphys]
      simp
    · rw [hos, hphys]
      simp
  | key layout ev =>
    cases h
    unfold Physical.key
    rw [SoleHolder] at hok
    cases ha : ev.action with
    -- a repeat presses again what is down
    | down =>
      rw [ha] at hok
      exact hp.press hi fun key ht => by rw [ht] at hok; exact hok
    | «repeat» n =>
      rw [ha] at hok
      exact hp.press hi fun key ht => by rw [ht] at hok; exact hok
    | up =>
      rw [ha] at hok
      exact hp.lift hi hok
  | mouse ev =>
    -- a wheel turned presses no button
    cases h
    cases ev with
    | moveAbs x y => exact hp
    | moveRel dx dy => exact hp
    | wheel dx dy =>
      have hos : s.os.applyAll code (s.sink.mouse (.wheel dx dy)).2 = s.os := by
        simp only [EnigoSink.mouse]
        split <;> split <;> rfl
      show PressedIffHeld code
        { s with os := s.os.applyAll code (s.sink.mouse (.wheel dx dy)).2 }
      rw [hos]
      exact hp
    | button b down => exact hp.button hok

/-- **No stuck input, as long as nothing is released that another still holds.** -/
theorem pressed_iff_held {s : SinkRun κ} (hs : (sinkRuns code).Reach (SoleHolder code) s) :
    PressedIffHeld code s := by
  refine hs.invariant (fun s h => ?_) fun s l s' hr hp hok hl =>
    hp.step (sinkInv hr.reachable) hok hl
  obtain ⟨target, perform, rfl⟩ := h
  exact ⟨fun c => by simp, fun b => by simp⟩

/-! ## A run with what is shared kept apart, and one in which it is not -/

/-- A client on X11 with nothing held, and the library's keys taken as the system's. -/
def SinkRun.start : SinkRun EKey := { sink := { target := .unix }, os := ⟨∅, ∅⟩ }

/-- The sink at its start holds nothing. -/
theorem SinkRun.start_init : (sinkRuns (id : EKey → EKey)).init SinkRun.start := ⟨_, _, rfl⟩

/-- A key event without a character. -/
def KeyEvent.bare (hid : Nat) (action : KeyAction) : KeyEvent :=
  { hid := hid, ch := none, mods := .empty, action := action }

/-- Left Alt and Tab, the left button, and then Right Alt after Left Alt is up. -/
def sharedInTurn : List SinkLabel :=
  [.enter ⟨0, 0⟩, .key (fun _ => none) (.bare 0xE2 .down), .key (fun _ => none) (.bare 0x2B .down),
   .key (fun _ => none) (.bare 0x2B (.repeat 1)), .mouse (.button .left true),
   .key (fun _ => none) (.bare 0xE2 .up), .key (fun _ => none) (.bare 0xE6 .down),
   .key (fun _ => none) (.bare 0x2B .up)]

/-- Alt held by two keys, one after the other. -/
theorem pressed_iff_held_in_turn :
    ∃ s, (sinkRuns id).exec (SoleHolder id) .start sharedInTurn = some s
      ∧ s.os.keys = {EKey.alt} ∧ s.os.buttons = {EBtn.left} ∧ PressedIffHeld id s :=
  have hfin : (((sinkRuns id).exec (SoleHolder id) .start sharedInTurn).map fun s =>
      (s.os.keys, s.os.buttons)) = some ({EKey.alt}, {EBtn.left}) := by decide +kernel
  match h : (sinkRuns id).exec (SoleHolder id) .start sharedInTurn, hfin with
  | some s, hfin => by
    simp only [Option.map_some, Option.some.injEq, Prod.mk.injEq] at hfin
    exact ⟨s, rfl, hfin.1, hfin.2, pressed_iff_held (Lts.reach_of_exec SinkRun.start_init h)⟩

/-- Both Alt keys go down, and one comes up. -/
def bothAlts : List SinkLabel :=
  [.key (fun _ => none) (.bare 0xE2 .down), .key (fun _ => none) (.bare 0xE6 .down),
   .key (fun _ => none) (.bare 0xE6 .up)]

/-- Left Alt is down, and the system has no key pressed. -/
theorem shared_alt_is_lifted :
    ∃ s, (sinkRuns (id : EKey → EKey)).Reachable s
      ∧ s.physical.keys.get? 0xE2 = some EKey.alt ∧ s.os.keys = ∅ ∧ ¬PressedIffHeld id s :=
  have hfin : (((sinkRuns (id : EKey → EKey)).run .start bothAlts).map fun s =>
      (s.physical.keys.get? 0xE2, s.os.keys)) = some (some EKey.alt, ∅) := by decide +kernel
  match h : (sinkRuns (id : EKey → EKey)).run .start bothAlts, hfin with
  | some s, hfin => by
    simp only [Option.map_some, Option.some.injEq, Prod.mk.injEq] at hfin
    obtain ⟨halt, hnone⟩ := hfin
    refine ⟨s, Lts.reachable_of_run SinkRun.start_init h, halt, hnone, fun hp => ?_⟩
    have hmem := (hp.keys EKey.alt).mpr ⟨0xE2, EKey.alt, halt, rfl⟩
    rw [hnone] at hmem
    exact absurd hmem (Finset.notMem_empty _)

end GeserDesk
