import Mathlib
import GeserDesk.Lib.Dict
import GeserDesk.Platform.Capture
import GeserDesk.Platform.Keymap

/-!
# The Windows backend — what the hooks swallow and what they report

`HookState` of `geserdesk-platform/src/windows.rs`, and what `Capture::grab` and
`Capture::release` do to it. What Windows answers when it is asked (the modifiers and locks it
has, the character a key types) is the environment's.
-/

namespace GeserDesk

/-- A key as the hook reports it. -/
structure WinKey where
  vk : Nat
  scan : Nat
  extended : Bool
deriving DecidableEq, Repr

/-- The scan code of the made-up Left Ctrl that precedes a Right Alt press of AltGr. -/
def FAKE_LCONTROL_SCAN : Nat := 0x21D

def VK_HOME : Nat := 0x24

namespace WinKey

def hid (k : WinKey) : Option Nat := winKeyToHid k.vk (k.scan % 2 ^ 16) k.extended

def isFake (k : WinKey) : Bool := k.scan == FAKE_LCONTROL_SCAN

def isHome (k : WinKey) : Bool := k.vk == VK_HOME && k.extended

end WinKey

/-- A mouse button as the hook reports it; an X button by its number. -/
inductive WinButton where
  | left | right | middle
  | x (high : Nat)
deriving DecidableEq, Repr

/-- Ids for the buttons a grab has swallowed the press of. -/
def BTN_LEFT : Nat := 1
def BTN_MIDDLE : Nat := 2
def BTN_RIGHT : Nat := 3
def BTN_BACK : Nat := 8
def BTN_FORWARD : Nat := 9

/-- The button the router knows it by and its id, if it has one. -/
def WinButton.known : WinButton → Option (Button × Nat)
  | .left => some (.left, BTN_LEFT)
  | .right => some (.right, BTN_RIGHT)
  | .middle => some (.middle, BTN_MIDDLE)
  | .x 1 => some (.back, BTN_BACK)
  | .x 2 => some (.forward, BTN_FORWARD)
  | .x _ => none

/-- What a mouse event is about. -/
inductive WinMouse where
  | move (pt : Point)
  | button (b : WinButton) (down : Bool)
  | wheel (high : Nat)
  | hwheel (high : Nat)
  | other
deriving DecidableEq, Repr

/-- The modifiers a character is typed under. -/
structure Typing where
  shift : Bool
  caps : Bool
  num : Bool
  /-- Right Alt, which stands for AltGr. -/
  altGr : Bool
deriving DecidableEq, Repr

/-- What the hook procedures need. -/
structure HookState where
  grabbed : Bool := false
  /-- Where the cursor is parked while grabbed. -/
  center : Point
  /-- Keys whose press a grab swallowed (HID usage → repeat count). -/
  keys : Dict Nat Nat := ∅
  /-- The same for mouse buttons. -/
  buttons : Finset Nat := ∅
  /-- The Home key of the hotkey chord is down. -/
  hotkeyDown : Bool := false
  /-- The modifier keys held, one bit per HID usage 0xE0 to 0xE7. -/
  held : BitVec 16
  caps : Bool
  num : Bool

/-- The bit of a modifier key. -/
def modifierBit (hid : Nat) : Option (BitVec 16) :=
  if 0xE0 ≤ hid ∧ hid ≤ 0xE7 then some (1 <<< (hid - 0xE0)) else none

namespace HookState

/-! ## The mouse -/

/-- `HookState::button`: the state, the event for the router, and whether it is swallowed. A
release whose press happened before the grab must reach the local desktop. -/
def button (h : HookState) (button : Button) (id : Nat) (down : Bool) :
    HookState × Option CaptureEvent × Bool :=
  if down then ({ h with buttons := insert id h.buttons }, some (.button button down), true)
  else if id ∈ h.buttons then
    ({ h with buttons := h.buttons.erase id }, some (.button button down), true)
  else (h, none, false)

/-- `HookState::on_mouse`. -/
def onMouse (h : HookState) (ev : WinMouse) : HookState × Option CaptureEvent × Bool :=
  if !h.grabbed then (h, none, false)
  else match ev with
    | .move pt =>
      let dx := pt.x - h.center.x
      let dy := pt.y - h.center.y
      (h, if dx ≠ 0 ∨ dy ≠ 0 then some (.motion dx dy) else none, true)
    | .button b down =>
      match b.known with
      | some (button, id) => h.button button id down
      | none => (h, none, true)
    -- the amount is the high half of a word, as an `i16`
    | .wheel high => (h, some (.wheel 0 ((high : Int).bmod (2 ^ 16))), true)
    | .hwheel high => (h, some (.wheel ((high : Int).bmod (2 ^ 16)) 0), true)
    | .other => (h, none, true)

/-! ## The keyboard

What the hook makes of a key event: the modifiers it follows, whether it is a shortcut, and
whether the event is kept from the desktop. -/

def isHeld (h : HookState) (hid : Nat) : Bool :=
  (modifierBit hid).any fun bit => h.held &&& bit != 0

def ctrlAndAltHeld (h : HookState) : Bool :=
  (h.isHeld 0xE0 || h.isHeld 0xE4) && (h.isHeld 0xE2 || h.isHeld 0xE6)

/-- The modifiers held, the way the X11 backend reports its state. -/
def mods (h : HookState) : ModMask :=
  ModMask.empty
    |>.set .SHIFT (h.isHeld 0xE1 || h.isHeld 0xE5)
    |>.set .CAPS_LOCK h.caps
    |>.set .CONTROL (h.isHeld 0xE4 || h.isHeld 0xE0)
    |>.set .ALT (h.isHeld 0xE2)
    |>.set .NUM_LOCK h.num
    |>.set .SUPER (h.isHeld 0xE3 || h.isHeld 0xE7)
    |>.set .ALT_GR (h.isHeld 0xE6)

/-- What a character is typed under. -/
def typing (h : HookState) : Typing :=
  { shift := h.isHeld 0xE1 || h.isHeld 0xE5, caps := h.caps, num := h.num,
    altGr := h.isHeld 0xE6 }

/-- What is held is tracked from every event; the made-up Ctrl of AltGr is not a key anyone
pressed. -/
def track (h : HookState) (k : WinKey) (down : Bool) : HookState :=
  if k.isFake then h
  else match k.hid.bind modifierBit with
    | some bit => { h with held := if down then h.held ||| bit else h.held &&& ~~~bit }
    | none => h

/-- A press while grabbed: a repeat of what is in the table, or a key down, which turns the
lock it stands for. -/
def press (h : HookState) (hid : Nat) : HookState × KeyAction :=
  match h.keys.get? hid with
  | some n => ({ h with keys := h.keys.put hid (min (n + 1) 65535) }, .repeat (min (n + 1) 65535))
  | none =>
    ({ h with keys := h.keys.put hid 0,
              caps := if hid = 0x39 then !h.caps else h.caps,
              num := if hid = 0x53 then !h.num else h.num }, .down)

/-- The end of `HookState::on_key`: the event of a key of the grab, which is swallowed. -/
def report (translate : Nat → Nat → Typing → Option Char) (h : HookState) (k : WinKey) (hid : Nat)
    (action : KeyAction) : HookState × Option CaptureEvent × Bool :=
  let ch := if hidIsPrintable hid then translate k.vk k.scan h.typing else none
  (h, some (.key { hid := hid, ch := ch, mods := h.mods, action := action }), true)

/-- `HookState::on_key`, from where the grab is looked at: a key of no usage is swallowed, and a
release is the desktop's when its press is not in the table. -/
def onGrabbedKey (translate : Nat → Nat → Typing → Option Char) (h : HookState) (k : WinKey)
    (down : Bool) : HookState × Option CaptureEvent × Bool :=
  if !h.grabbed then (h, none, false)
  else if k.isFake then (h, none, true)
  else match k.hid with
    | none => (h, none, true)
    | some hid =>
      if down then
        let (h, action) := h.press hid
        h.report translate k hid action
      else if (h.keys.get? hid).isSome then
        { h with keys := h.keys.drop hid }.report translate k hid .up
      else (h, none, false)

/-- `HookState::on_key`: the state, the event for the router, and whether it is swallowed. The
chord works in both modes, and its keys never reach anyone. -/
def onKey (translate : Nat → Nat → Typing → Option Char) (h : HookState) (k : WinKey)
    (down : Bool) : HookState × Option CaptureEvent × Bool :=
  let h := h.track k down
  if k.isHome then
    if down && h.ctrlAndAltHeld then
      ({ h with hotkeyDown := true }, if h.hotkeyDown then none else some .hotkey, true)
    else if h.hotkeyDown then ({ h with hotkeyDown := down }, none, true)
    else h.onGrabbedKey translate k down
  else h.onGrabbedKey translate k down

/-! ## The grab -/

/-- `HookState::resync`: the modifiers and locks, from Windows itself. -/
def resync (h : HookState) (held : BitVec 16) (caps num : Bool) : HookState :=
  { h with held := held, caps := caps, num := num }

/-- `Capture::grab`. It fails when the cursor cannot be moved. -/
def grab (h : HookState) (held : BitVec 16) (caps num : Bool) (center : Point) (cursorMoved : Bool) :
    HookState :=
  let h := h.resync held caps num
  if cursorMoved then { h with center := center, keys := ∅, buttons := ∅, grabbed := true } else h

/-- `Capture::release`. -/
def release (h : HookState) : HookState := { h with grabbed := false, keys := ∅, buttons := ∅ }

end HookState

end GeserDesk
