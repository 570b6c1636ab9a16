import Mathlib.Data.Finset.Basic
import GeserDesk.Lib.Transition
import GeserDesk.Platform.Pairing
import GeserDesk.Platform.X11

/-!
# The keyboard under an X11 grab — key events in pairs, the chord once

A run is what happens to the keyboard within one grab: presses (those of a key that is down
already are its auto-repeat), releases of keys that are down, each with any modifier state. Keys
may be down when the grab begins, and the chord may be. The chord is pressed when its key is
pressed, or repeats, with Ctrl and Alt held, and was not the moment before.

* **`chord_paired`**: the events of each key are a press, its repeats counted from one, and its
  release; a key that is up again has had its release emitted; every press of the chord is one
  hotkey. So it is in every run in which the chord is let go before it repeats, and the key of
  the chord is released as it was pressed (`ChordApart`).
* **`held_chord_fires_again`**: the chord's own auto-repeat is a hotkey each time.
* **`home_then_chord_keeps_home_down`**: the release of Home, pressed before Ctrl and Alt and
  released under them, is swallowed though its press was emitted.
-/

namespace GeserDesk

/-! ## The runs

Key events of a grab, with what the capture reports and what is held on the keyboard. -/

structure ChordRun where
  cap : X11Capture
  /-- The keys that are physically down. -/
  held : Finset Nat
  /-- The last event of the chord's key was a press with Ctrl and Alt held. -/
  chordHeld : Bool
  /-- How often the chord was pressed in this grab. -/
  chordPresses : Nat := 0
  /-- What the router was told in this grab. -/
  out : List CaptureEvent := []

inductive ChordLabel where
  /-- A `KeyPress` or a `KeyRelease`, with the modifier state it carries. -/
  | key (keycode : Nat) (state : BitVec 16) (down : Bool)
  /-- The keyboard mapping changed and was read again. -/
  | remap (km : Keymap)

namespace ChordRun

/-- What an event of the chord's key does to the chord. -/
def chord (s : ChordRun) (keycode : Nat) (state : BitVec 16) (down : Bool) : ChordRun :=
  if some keycode = s.cap.hotkeyKey then
    let pressed := down && s.cap.isChord keycode state
    { s with chordHeld := pressed,
             chordPresses := s.chordPresses + (pressed && !s.chordHeld).toNat }
  else s

def step (isAlphabetic : Char → Bool) (s : ChordRun) : ChordLabel → Option ChordRun
  | .key keycode state down =>
    if down = false ∧ keycode ∉ s.held then none
    else
      let (cap, ev) := s.cap.onKey isAlphabetic keycode state down
      some { s.chord keycode state down with
             cap := cap,
             held := if down then insert keycode s.held else s.held.erase keycode,
             out := s.out ++ ev.toList }
  | .remap km => some { s with cap := { s.cap with keymap := km } }

end ChordRun

/-- The keyboard within one grab, as a transition system. -/
def chordRuns (isAlphabetic : Char → Bool) : Lts ChordRun ChordLabel where
  init s := ∃ (cap : X11Capture) (pointer : Point) (held : Finset Nat) (chordHeld : Bool),
    (chordHeld = true → ∃ k ∈ held, some k = cap.hotkeyKey)
      ∧ s = { cap := (cap.grab pointer).1, held := held, chordHeld := chordHeld }
  step := ChordRun.step isAlphabetic

/-- What keeps the events in pairs: the chord does not repeat; under Ctrl and Alt its key is
released only if its press was not emitted, and any other key, or without them, only if it was;
and no key repeats beyond the counter. -/
def ChordApart (s : ChordRun) : ChordLabel → Prop
  | .key keycode state down =>
    if s.cap.isChord keycode state then
      if down then s.chordHeld = false else s.cap.pressed.get? keycode = none
    else if (X11Capture.hidOf keycode).isNone then True
    else if down then ∀ n ∈ s.cap.pressed.get? keycode, n < 65535
    else (s.cap.pressed.get? keycode).isSome
  | .remap _ => True

instance (s : ChordRun) (l : ChordLabel) : Decidable (ChordApart s l) := by
  unfold ChordApart
  split
  · infer_instance
  · infer_instance

/-- What the router is told is in pairs. -/
structure ChordPaired (s : ChordRun) : Prop where
  /-- The events of a key are its press, its repeats and its release. -/
  pairs : ∀ hid, ∃ p, phase KeyPhase.step none (keyActions hid s.out) = some p
  /-- A key that is up is up for the router too. -/
  released : ∀ keycode hid, X11Capture.hidOf keycode = some hid → keycode ∉ s.held →
    phase KeyPhase.step none (keyActions hid s.out) = some none
  /-- Every press of the chord is one hotkey. -/
  hotkeys : s.out.count .hotkey = s.chordPresses

/-! ## The invariant -/

/-- No two keys of the table are one to the protocol. -/
theorem X11Capture.hidOf_inj {a b hid : Nat} (ha : X11Capture.hidOf a = some hid)
    (hb : X11Capture.hidOf b = some hid) : a = b := by
  unfold hidOf at ha hb
  split at ha
  · split at hb
    · have h := evdevToHid_inj ha hb
      omega
    · cases hb
  · cases ha

/-- The table of held keys is where the emitted events leave each key. -/
structure ChordInv (s : ChordRun) : Prop where
  grabbed : s.cap.grabbed = true
  phases : ∀ keycode hid, X11Capture.hidOf keycode = some hid →
    phase KeyPhase.step none (keyActions hid s.out) = some (s.cap.pressed.get? keycode)
  unmapped : ∀ hid, (∀ keycode, X11Capture.hidOf keycode ≠ some hid) → keyActions hid s.out = []
  mapped : ∀ keycode, (s.cap.pressed.get? keycode).isSome → (X11Capture.hidOf keycode).isSome
  held : ∀ keycode, (s.cap.pressed.get? keycode).isSome → keycode ∈ s.held
  hotkeys : s.out.count .hotkey = s.chordPresses

/-- Where the invariant holds, presses and releases of every key come in pairs. -/
theorem ChordInv.paired {s : ChordRun} (hi : ChordInv s) : ChordPaired s where
  pairs hid := by
    by_cases h : ∃ keycode, X11Capture.hidOf keycode = some hid
    · obtain ⟨keycode, hk⟩ := h
      exact ⟨_, hi.phases keycode hid hk⟩
    · exact ⟨none, by rw [hi.unmapped hid fun k hk => h ⟨k, hk⟩]; rfl⟩
  released keycode hid hk hup := by
    rw [hi.phases keycode hid hk]
    cases hp : s.cap.pressed.get? keycode with
    | none => rfl
    | some n => exact absurd (hi.held keycode (by rw [hp]; rfl)) hup
  hotkeys := hi.hotkeys

/-! ## One key event

A chord, a key without a usage, or one with: what each does to the phases. -/

/-- What the table and the events do at a press or a release that is emitted. -/
theorem X11Capture.pressKey_step {pressed : Dict Nat Nat} {keycode : Nat}
    (h : ∀ n ∈ pressed.get? keycode, n < 65535) :
    KeyPhase.step (pressed.get? keycode) (pressKey pressed keycode).2
        = some ((pressKey pressed keycode).1.get? keycode)
      ∧ ∀ k, k ≠ keycode → (pressKey pressed keycode).1.get? k = pressed.get? k := by
  unfold pressKey
  cases hp : pressed.get? keycode with
  | none =>
    refine ⟨by simp [KeyPhase.step], fun k hk => ?_⟩
    rw [Dict.get?_put, if_neg hk]
  | some n =>
    have hn : min (n + 1) 65535 = n + 1 := by
      have := h n hp
      omega
    refine ⟨by simp [KeyPhase.step, hn], fun k hk => ?_⟩
    rw [Dict.get?_put, if_neg hk]

/-- A hotkey for a chord that was not held, or nothing for the chord's release. -/
theorem ChordInv.chordKey {s : ChordRun} (hi : ChordInv s) {keycode : Nat} {state : BitVec 16}
    {down : Bool} (hc : s.cap.isChord keycode state = true)
    (hok : ChordApart s (.key keycode state down)) :
    ChordInv { s.chord keycode state down with
               cap := s.cap,
               held := if down then insert keycode s.held else s.held.erase keycode,
               out := s.out ++ (if down then some CaptureEvent.hotkey else none).toList } := by
  have hkey : some keycode = s.cap.hotkeyKey := by
    rw [X11Capture.isChord, Bool.and_eq_true, beq_iff_eq] at hc
    exact hc.1
  rw [ChordApart, if_pos hc] at hok
  cases down with
  | true =>
    rw [if_pos rfl] at hok
    have hch : (s.chord keycode state true).chordPresses = s.chordPresses + 1 := by
      simp [ChordRun.chord, hkey, hc, hok]
    refine ⟨hi.grabbed, fun k hid hk => ?_, fun hid hno => ?_, fun k hk => ?_, fun k hk => ?_, ?_⟩
    · refine Eq.trans ?_ (hi.phases k hid hk)
      exact congrArg (phase KeyPhase.step none)
        (keyActions_snoc_other hid s.out fun _ => CaptureEvent.noConfusion)
    · exact (keyActions_snoc_other hid s.out (fun _ => by simp)).trans (hi.unmapped hid hno)
    · exact hi.mapped k hk
    · exact Finset.mem_insert_of_mem (hi.held k hk)
    · show (s.out ++ [CaptureEvent.hotkey]).count CaptureEvent.hotkey = _
      rw [List.count_append, hi.hotkeys]
      exact hch.symm
  | false =>
    rw [if_neg (by decide)] at hok
    have hch : (s.chord keycode state false).chordPresses = s.chordPresses := by
      simp [ChordRun.chord, hkey]
    have hout : s.out ++ (if false = true then some CaptureEvent.hotkey else none).toList
        = s.out := List.append_nil _
    rw [hout]
    refine ⟨hi.grabbed, hi.phases, hi.unmapped, hi.mapped, fun k hk => ?_,
      hi.hotkeys.trans hch.symm⟩
    -- the chord's key has no press to be released
    have hne : k ≠ keycode := by
      rintro rfl
      rw [show ({ s.chord k state false with cap := s.cap } : ChordRun).cap = s.cap from rfl,
        hok] at hk
      cases hk
    exact Finset.mem_erase.mpr ⟨hne, hi.held k hk⟩

/-- An event of a mapped key, outside the chord: the events of its usage go on as the table
does, and those of every other usage stay. -/
theorem ChordInv.mappedKey {s : ChordRun} (hi : ChordInv s) {keycode hid : Nat}
    (hk : X11Capture.hidOf keycode = some hid) {pressed : Dict Nat Nat} {action : KeyAction}
    (hstep : KeyPhase.step (s.cap.pressed.get? keycode) action = some (pressed.get? keycode))
    (hframe : ∀ k, k ≠ keycode → pressed.get? k = s.cap.pressed.get? k) {held : Finset Nat}
    (hheld : ∀ k, (pressed.get? k).isSome → k ∈ held) {chordHeld : Bool} (ch : Option Char)
    (mods : ModMask) :
    ChordInv { s with
      cap := { s.cap with pressed := pressed },
      held := held,
      chordHeld := chordHeld,
      out := s.out ++ [.key { hid := hid, ch := ch, mods := mods, action := action }] } := by
  refine ⟨hi.grabbed, fun k x hkx => ?_, fun x hno => ?_, fun k hp => ?_, hheld, ?_⟩
  · show phase KeyPhase.step none (keyActions x (s.out ++ [.key _])) = some (pressed.get? k)
    rw [keyActions_snoc_key]
    by_cases hx : hid = x
    · have hkk : k = keycode := X11Capture.hidOf_inj hkx (hx ▸ hk)
      rw [if_pos hx, phase_snoc, hkk, hi.phases keycode x (hx ▸ hk)]
      exact hstep
    · have hne : k ≠ keycode := by
        rintro rfl
        rw [hk] at hkx
        exact hx (Option.some.inj hkx)
      rw [if_neg hx, hframe k hne]
      exact hi.phases k x hkx
  · have hne : hid ≠ x := fun hx => hno keycode (hx ▸ hk)
    show keyActions x (s.out ++ [.key _]) = []
    rw [keyActions_snoc_key, if_neg hne]
    exact hi.unmapped x hno
  · by_cases hkk : k = keycode
    · rw [hkk, hk]; rfl
    · rw [show ({ s.cap with pressed := pressed } : X11Capture).pressed = pressed from rfl,
        hframe k hkk] at hp
      exact hi.mapped k hp
  · show (s.out ++ [CaptureEvent.key _]).count CaptureEvent.hotkey = s.chordPresses
    rw [List.count_append, hi.hotkeys]
    rfl

/-- Outside the chord no press of it is counted. -/
theorem ChordRun.chord_of_not {s : ChordRun} {keycode : Nat} {state : BitVec 16}
    (hc : s.cap.isChord keycode state = false) (down : Bool) :
    ∃ chordHeld, s.chord keycode state down = { s with chordHeld := chordHeld } := by
  unfold ChordRun.chord
  split
  · exact ⟨false, by simp [hc]⟩
  · exact ⟨s.chordHeld, rfl⟩

namespace X11Capture

variable {isAlphabetic : Char → Bool} {c : X11Capture} {keycode : Nat} {state : BitVec 16}

/-- The chord gives the hotkey when it goes down, and nothing else. -/
theorem onKey_chord (hc : c.isChord keycode state = true) (down : Bool) :
    c.onKey isAlphabetic keycode state down
      = (c, if down then some .hotkey else none) := if_pos hc

/-- A key without a usage gives nothing. -/
theorem onKey_unmapped (hc : c.isChord keycode state = false) (hk : hidOf keycode = none)
    (down : Bool) : c.onKey isAlphabetic keycode state down = (c, none) := by
  rw [onKey, if_neg (by rw [hc]; decide), hk]
  split <;> rfl

/-- A key with a usage gives its press, its repeat or its release. -/
theorem onKey_mapped (isAlphabetic : Char → Bool) (hc : c.isChord keycode state = false)
    (hg : c.grabbed = true) {hid : Nat} (hk : hidOf keycode = some hid) (down : Bool) :
    ∃ ch, c.onKey isAlphabetic keycode state down
      = ({ c with pressed := if down then (pressKey c.pressed keycode).1
                             else c.pressed.drop keycode },
          some (.key { hid := hid, ch := ch, mods := modsFromState state,
                       action := if down then (pressKey c.pressed keycode).2 else .up })) := by
  rw [onKey, if_neg (by rw [hc]; decide), if_neg (by rw [hg]; decide), hk]
  cases down <;> exact ⟨_, rfl⟩

end X11Capture

/-- **Every step that keeps keys and chord apart keeps them paired.** -/
theorem ChordInv.step {isAlphabetic : Char → Bool} {s s' : ChordRun} {l : ChordLabel}
    (hi : ChordInv s) (hok : ChordApart s l) (h : ChordRun.step isAlphabetic s l = some s') :
    ChordInv s' := by
  cases l with
  -- another keymap changes nothing that is held
  | remap km =>
    cases h
    exact ⟨hi.grabbed, hi.phases, hi.unmapped, hi.mapped, hi.held, hi.hotkeys⟩
  | key keycode state down =>
    rw [ChordRun.step] at h
    split at h
    · cases h
    -- the chord comes first: `onKey` looks at nothing else then
    · cases hc : s.cap.isChord keycode state with
      | true =>
        rw [X11Capture.onKey_chord hc] at h
        cases h
        exact hi.chordKey hc hok
      | false =>
        obtain ⟨chordHeld, hch⟩ := ChordRun.chord_of_not hc down
        rw [ChordApart, if_neg (by rw [hc]; decide)] at hok
        rw [hch] at h
        -- a key without a usage is never pressed here, so its release is none either
        cases hk : X11Capture.hidOf keycode with
        | none =>
          rw [X11Capture.onKey_unmapped hc hk] at h
          cases h
          refine ⟨hi.grabbed, fun k x hkx => ?_, fun x hno => ?_, hi.mapped, fun k hp => ?_, ?_⟩
          · refine Eq.trans ?_ (hi.phases k x hkx)
            exact congrArg (fun out => phase KeyPhase.step none (keyActions x out))
              (List.append_nil s.out)
          · exact (congrArg (keyActions x) (List.append_nil s.out)).trans (hi.unmapped x hno)
          · have hne : k ≠ keycode := by
              rintro rfl
              have hmapped := hi.mapped k hp
              rw [hk] at hmapped
              cases hmapped
            show k ∈ if down = true then insert keycode s.held else s.held.erase keycode
            cases down with
            | true => exact Finset.mem_insert_of_mem (hi.held k hp)
            | false => exact Finset.mem_erase.mpr ⟨hne, hi.held k hp⟩
          · exact (congrArg (List.count .hotkey) (List.append_nil s.out)).trans hi.hotkeys
        | some hid =>
          obtain ⟨ch, hon⟩ := X11Capture.onKey_mapped isAlphabetic hc hi.grabbed hk down
          rw [hon] at h
          rw [hk, if_neg (by simp)] at hok
          cases h
          -- a press begins the phase of its key
          cases down with
          | true =>
            rw [if_pos rfl] at hok
            obtain ⟨hstep, hframe⟩ := X11Capture.pressKey_step hok
            refine hi.mappedKey hk hstep hframe (fun k hp => ?_) ch (modsFromState state)
            by_cases hkk : k = keycode
            · exact hkk ▸ Finset.mem_insert_self _ _
            · exact Finset.mem_insert_of_mem (hi.held k (hframe k hkk ▸ hp))
          -- a release ends it, and the key was down by the condition
          | false =>
            rw [if_neg (by decide)] at hok
            obtain ⟨n, hn⟩ := Option.isSome_iff_exists.mp hok
            have hstep : KeyPhase.step (s.cap.pressed.get? keycode) .up
                = some ((s.cap.pressed.drop keycode).get? keycode) := by
              rw [hn, Dict.get?_drop, if_pos rfl]
              rfl
            have hframe : ∀ k, k ≠ keycode →
                (s.cap.pressed.drop keycode).get? k = s.cap.pressed.get? k := fun k hkk => by
              rw [Dict.get?_drop, if_neg hkk]
            refine hi.mappedKey hk hstep hframe (fun k hp => ?_) ch (modsFromState state)
            have hkk : k ≠ keycode := by
              rintro rfl
              rw [Dict.get?_drop, if_pos rfl] at hp
              cases hp
            exact Finset.mem_erase.mpr ⟨hkk, hi.held k (hframe k hkk ▸ hp)⟩

/-- **Keys in pairs, the chord once.** -/
theorem chord_paired {isAlphabetic : Char → Bool} {s : ChordRun}
    (hs : (chordRuns isAlphabetic).Reach ChordApart s) : ChordPaired s := by
  refine ChordInv.paired (hs.invariant (fun s h => ?_) fun s l s' _ hi hok hl => hi.step hok hl)
  obtain ⟨cap, pointer, held, chordHeld, -, rfl⟩ := h
  refine ⟨rfl, fun k x _ => ?_, fun x _ => rfl, fun k hp => ?_, fun k hp => ?_, rfl⟩
  · exact congrArg some (Dict.get?_empty k).symm
  · rw [show (cap.grab pointer).1.pressed = ∅ from rfl, Dict.get?_empty] at hp
    cases hp
  · rw [show (cap.grab pointer).1.pressed = ∅ from rfl, Dict.get?_empty] at hp
    cases hp

/-! ## Runs within a grab, and two in which the chord's key goes wrong -/

/-- A grab with no key down; Home, keycode 110, is the key of the chord. -/
def ChordRun.start : ChordRun :=
  { cap := (X11Capture.grab { root := .hundred, keymap := ⟨8, 1, []⟩,
                              hotkeyKey := some 110, last := ⟨50, 50⟩ } ⟨10, 20⟩).1,
    held := ∅, chordHeld := false }

/-- A capture at rest is a start. -/
theorem ChordRun.start_init : (chordRuns Char.isAlpha).init ChordRun.start :=
  ⟨_, _, _, _, fun h => (by cases h), rfl⟩

/-- `a` held and repeating while the chord is pressed and let go, then Home on its own. -/
def tapsAndChord : List ChordLabel :=
  [.key 38 0 true, .key 38 0 true, .key 110 0x0C true, .key 110 0x0C false, .key 38 0 true,
   .key 38 0 false, .key 110 0 true, .key 110 0 true, .key 110 0 false, .key 200 0 true]

/-- A key that repeats, and the chord in the middle of it. -/
theorem chord_paired_taps :
    ∃ s, (chordRuns Char.isAlpha).exec ChordApart .start tapsAndChord = some s
      ∧ ChordPaired s ∧ s.chordPresses = 1
      ∧ keyActions 0x04 s.out = [.down, .repeat 1, .repeat 2, .up]
      ∧ keyActions 0x4A s.out = [.down, .repeat 1, .up] :=
  have hfin : (((chordRuns Char.isAlpha).exec ChordApart .start tapsAndChord).map fun s =>
      (s.chordPresses, keyActions 0x04 s.out, keyActions 0x4A s.out))
        = some (1, [.down, .repeat 1, .repeat 2, .up], [.down, .repeat 1, .up]) := by
    decide +kernel
  match h : (chordRuns Char.isAlpha).exec ChordApart .start tapsAndChord, hfin with
  | some s, hfin => by
    simp only [Option.map_some, Option.some.injEq, Prod.mk.injEq] at hfin
    exact ⟨s, rfl, chord_paired (Lts.reach_of_exec ChordRun.start_init h), hfin⟩

/-- The chord is pressed once and held until it repeats. -/
def heldChord : List ChordLabel :=
  [.key 110 0x0C true, .key 110 0x0C true, .key 110 0x0C false]

/-- One press of the chord, held until it repeats, is two hotkeys. -/
theorem held_chord_fires_again :
    ∃ s, (chordRuns Char.isAlpha).Reachable s ∧ s.chordPresses = 1
      ∧ s.out.count .hotkey = 2 ∧ ¬ChordPaired s :=
  have hfin : (((chordRuns Char.isAlpha).run .start heldChord).map fun s =>
      (s.chordPresses, s.out.count .hotkey)) = some (1, 2) := by decide +kernel
  match h : (chordRuns Char.isAlpha).run .start heldChord, hfin with
  | some s, hfin => by
    simp only [Option.map_some, Option.some.injEq, Prod.mk.injEq] at hfin
    obtain ⟨hpress, hcount⟩ := hfin
    refine ⟨s, Lts.reachable_of_run ChordRun.start_init h, hpress, hcount, fun hp => ?_⟩
    have := hp.hotkeys
    omega

/-- Home is pressed first and released while Ctrl and Alt are held. -/
def homeThenChord : List ChordLabel := [.key 110 0 true, .key 110 0x0C false]

/-- Home is up again, and the router was told of its press and never of its release. -/
theorem home_then_chord_keeps_home_down :
    ∃ s, (chordRuns Char.isAlpha).Reachable s ∧ 110 ∉ s.held
      ∧ keyActions 0x4A s.out = [.down] ∧ ¬ChordPaired s :=
  have hfin : (((chordRuns Char.isAlpha).run .start homeThenChord).map fun s =>
      (decide (110 ∈ s.held), keyActions 0x4A s.out)) = some (false, [.down]) := by decide +kernel
  match h : (chordRuns Char.isAlpha).run .start homeThenChord, hfin with
  | some s, hfin => by
    simp only [Option.map_some, Option.some.injEq, Prod.mk.injEq, decide_eq_false_iff_not] at hfin
    obtain ⟨hup, hacts⟩ := hfin
    refine ⟨s, Lts.reachable_of_run ChordRun.start_init h, hup, hacts, fun hp => ?_⟩
    have hnone := hp.released 110 0x4A (by decide) hup
    rw [hacts] at hnone
    cases hnone

end GeserDesk
