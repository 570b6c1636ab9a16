import Mathlib
import GeserDesk.Lib.Dict
import GeserDesk.Platform.Capture
import GeserDesk.Platform.Keymap

/-!
# The X11 backend — positions into motion, key events into key events

`geserdesk-platform/src/x11.rs`: the pointer and the keys of `Capture`, and the keymap it takes
characters from. What the server does with a request is not here: `warp` says where the pointer
is sent.

Positions are 16-bit on the wire, and the differences of two of them are taken in `i32`.
-/

namespace GeserDesk

/-! ## The keymap

What the X server says of a key code: its symbols, the character under the modifiers held, and the
modifiers themselves. -/

/-- The symbols of every key, `perKeycode` for each from `minKeycode` on. -/
structure Keymap where
  minKeycode : Nat
  perKeycode : Nat
  syms : List Nat
deriving Repr

/-- `char::from_u32`. -/
def charFromU32 (n : Nat) : Option Char :=
  if h : n.isValidChar then some ⟨n.toUInt32, by
    have hn : n.toUInt32.toNat = n := Nat.mod_eq_of_lt (by
      rcases h with h | ⟨_, h⟩ <;> omega)
    rw [UInt32.isValidChar, hn]; exact h⟩
  else none

/-- Printable X keysyms to characters (Latin-1, Unicode keysyms, keypad). -/
def keysymToChar (sym : Nat) : Option Char :=
  if (0x20 ≤ sym ∧ sym ≤ 0x7e) ∨ (0xa0 ≤ sym ∧ sym ≤ 0xff) then charFromU32 sym
  else if 0x01000000 ≤ sym ∧ sym ≤ 0x0110ffff then charFromU32 (sym &&& 0x00ffffff)
  else if 0xffb0 ≤ sym ∧ sym ≤ 0xffb9 then charFromU32 ('0'.toNat + (sym - 0xffb0))
  else match sym with
    | 0xffaa => some '*'
    | 0xffab => some '+'
    | 0xffac => some ','
    | 0xffad => some '-'
    | 0xffae => some '.'
    | 0xffaf => some '/'
    | 0xffbd => some '='
    | _ => none

/-- Whether one of the bits of `mask` is set in an event's modifier state. -/
def stateHas (state mask : BitVec 16) : Bool := state &&& mask != 0

namespace Keymap

def sym (km : Keymap) (keycode index : Nat) : Nat :=
  if keycode < km.minKeycode ∨ km.perKeycode ≤ index then 0
  else km.syms.getD ((keycode - km.minKeycode) * km.perKeycode + index) 0

/-- The character `keycode` produces under the modifier `state`. What counts as a letter is
the standard library's table. -/
def charFor (isAlphabetic : Char → Bool) (km : Keymap) (keycode : Nat) (state : BitVec 16) :
    Option Char :=
  let shift := stateHas state 0x01
  let lock := stateHas state 0x02
  let numlock := stateHas state 0x10
  let altgr := stateHas state 0x80
  let baseSym := km.sym keycode 0
  let isKeypad := decide (0xff80 ≤ baseSym ∧ baseSym ≤ 0xffbd)
  let isAlpha := (keysymToChar baseSym).any isAlphabetic
  let level :=
    if isKeypad then (numlock != shift).toNat
    else if altgr && decide (6 ≤ km.perKeycode) then 4 + shift.toNat
    else if isAlpha then (shift != lock).toNat
    else shift.toNat
  let sym := km.sym keycode level
  keysymToChar (if sym = 0 then baseSym else sym)

end Keymap

def modsFromState (state : BitVec 16) : ModMask :=
  ModMask.empty
    |>.set .SHIFT (stateHas state 0x01)
    |>.set .CAPS_LOCK (stateHas state 0x02)
    |>.set .CONTROL (stateHas state 0x04)
    |>.set .ALT (stateHas state 0x08)
    |>.set .NUM_LOCK (stateHas state 0x10)
    |>.set .SUPER (stateHas state 0x40)
    |>.set .ALT_GR (stateHas state 0x80)

/-! ## The capture

What the capture does with keys and motion while it has the grab. -/

/-- The root window, whose size the server gives in 16 bits. -/
structure RootWindow where
  width : Nat
  height : Nat
  width_pos : 0 < width := by decide
  height_pos : 0 < height := by decide
  width_lt : width < 2 ^ 16 := by decide
  height_lt : height < 2 ^ 16 := by decide

namespace RootWindow

/-- A screen of 100 by 100. -/
def hundred : RootWindow := { width := 100, height := 100 }

def bounds (r : RootWindow) : Rect := ⟨0, 0, r.width, r.height⟩

/-- Where the pointer is kept while grabbed. -/
def center (r : RootWindow) : Point := r.bounds.center

/-- `Capture::warp`: where a `WarpPointer` for `p` sends the pointer. -/
def warp (r : RootWindow) (p : Point) : Point :=
  let p := r.bounds.clamp p
  ⟨p.x.bmod (2 ^ 16), p.y.bmod (2 ^ 16)⟩

end RootWindow

/-- What the backend remembers between events. -/
structure X11Capture where
  root : RootWindow
  keymap : Keymap
  /-- The key of the chord, as the keymap at the start had it. -/
  hotkeyKey : Option Nat
  grabbed : Bool := false
  /-- Last pointer position seen while grabbed. -/
  last : Point
  /-- A warp to the centre is in flight; events that predate it are still queued. -/
  expectingCenter : Bool := false
  /-- Keys currently held (X keycode → repeat count), for auto-repeat. -/
  pressed : Dict Nat Nat := ∅

namespace X11Capture

/-- The end of `Capture::grab`, once both devices are taken and the pointer is found at
`pointer`: the capture, and where the pointer is sent. -/
def grab (c : X11Capture) (pointer : Point) : X11Capture × Point :=
  ({ c with last := pointer, expectingCenter := true, grabbed := true, pressed := ∅ },
    c.root.warp c.root.center)

/-- `Capture::release`: the capture, and where the pointer is sent. -/
def release (c : X11Capture) (warpTo : Option Point) : X11Capture × Option Point :=
  ({ c with grabbed := false, pressed := ∅ }, warpTo.map c.root.warp)

/-- `Capture::on_motion`: the capture, the event for the router, and where the pointer is
sent. -/
def onMotion (c : X11Capture) (pos : Point) : X11Capture × Option CaptureEvent × Option Point :=
  let center := c.root.center
  if c.expectingCenter then
    if pos = center then ({ c with expectingCenter := false, last := pos }, none, none)
    else
      let dx := pos.x - c.last.x
      let dy := pos.y - c.last.y
      ({ c with last := pos }, if dx = 0 ∧ dy = 0 then none else some (.motion dx dy), none)
  else
    let dx := pos.x - center.x
    let dy := pos.y - center.y
    if dx = 0 ∧ dy = 0 then (c, none, none)
    else ({ c with last := pos, expectingCenter := true }, some (.motion dx dy),
      some (c.root.warp center))

/-- `KeyButMask::CONTROL | KeyButMask::MOD1`, both of which the chord needs. -/
def want : BitVec 16 := 0x0C

/-- Whether an event of this key, in this modifier state, is the chord's. -/
def isChord (c : X11Capture) (keycode : Nat) (state : BitVec 16) : Bool :=
  some keycode == c.hotkeyKey && state &&& want == want

/-- The usage of a keycode: X keycodes are `evdev + 8`. -/
def hidOf (keycode : Nat) : Option Nat :=
  if 8 ≤ keycode then evdevToHid (keycode - 8) else none

/-- What a press is, and the table after it: of a key that is held already, a repeat. -/
def pressKey (pressed : Dict Nat Nat) (keycode : Nat) : Dict Nat Nat × KeyAction :=
  match pressed.get? keycode with
  | some n => (pressed.put keycode (min (n + 1) 65535), .repeat (min (n + 1) 65535))
  | none => (pressed.put keycode 0, .down)

/-- `Capture::on_key`: the capture, and the event for the router. -/
def onKey (isAlphabetic : Char → Bool) (c : X11Capture) (keycode : Nat) (state : BitVec 16)
    (down : Bool) : X11Capture × Option CaptureEvent :=
  if c.isChord keycode state then
    -- Swallow both edges of the hotkey; report only the press.
    (c, if down then some .hotkey else none)
  else if !c.grabbed then (c, none)
  else match hidOf keycode with
    | none => (c, none)
    | some hid =>
      let (pressed, action) :=
        if down then pressKey c.pressed keycode else (c.pressed.drop keycode, .up)
      let ch := if hidIsPrintable hid then c.keymap.charFor isAlphabetic keycode state else none
      ({ c with pressed := pressed },
        some (.key { hid := hid, ch := ch, mods := modsFromState state, action := action }))

end X11Capture

end GeserDesk
