import Mathlib
import GeserDesk.Lib.Dict
import GeserDesk.Platform.Keymap

/-!
# Turning protocol input into input of this machine

`geserdesk-client/src/inject.rs`: `EnigoSink`, which key it presses for an event and what it
remembers of it. What it asks of the operating system is the list of actions it returns; that
the system may refuse one is not here. What the layout of the focused window says about a
character is the environment's.
-/

namespace GeserDesk

/-- What the client is built for, as far as its keys go. -/
inductive Target where
  | windows
  | unix
  | macos
deriving DecidableEq, Repr

/-- A key as the injection library names it. -/
inductive EKey where
  | «return» | escape | backspace | tab | space | capsLock | f (n : Nat) | printScr | pause | insert
  | home | pageUp | delete | «end» | pageDown | rightArrow | leftArrow | downArrow | upArrow | numlock
  | apps | lControl | lShift | alt | «meta» | rControl | rShift
  | volumeMute | volumeDown | volumeUp | mediaPlayPause | mediaNextTrack | mediaPrevTrack | mediaStop
  | unicode (c : Char)
  /-- A virtual key on Windows, a keysym elsewhere. -/
  | other (code : Nat)
deriving DecidableEq, Repr

/-- A button as the injection library names it. -/
inductive EBtn where
  | left | middle | right | back | forward
deriving DecidableEq, Repr

/-- How a machine does an action. -/
inductive Perform where
  | ignore
  | keysym (v : Nat)
  | virtualKey (v : Nat)
  | action (hid : Nat)
deriving DecidableEq, Repr

/-- How this machine does the key it was sent, once its own setup is applied. -/
inductive Resolution where
  | key (hid : Nat)
  | ignore
  | keysym (v : Nat)
  | virtualKey (v : Nat)
deriving DecidableEq, Repr

/-- What to do for `hid`. Only the special keys can be set up, and "do another action" goes one
step and no further. -/
def resolve (perform : Dict Nat Perform) (hid : Nat) : Resolution :=
  if !Consumer.isExtra hid then .key hid
  else match perform.get? hid with
    | none => .key hid
    | some .ignore => .ignore
    | some (.keysym v) => .keysym v
    | some (.virtualKey v) => .virtualKey v
    | some (.action other) => .key other

/-! ## Which key

A key with a name is typed by it, and any other by the character the server's layout produced. -/

/-- The keys every system has. -/
def namedKeys : List (Nat × EKey) :=
  [(0x28, .return), (0x58, .return), (0x29, .escape), (0x2A, .backspace), (0x2B, .tab),
   (0x2C, .space), (0x39, .capsLock), (0x3A, .f 1), (0x3B, .f 2), (0x3C, .f 3), (0x3D, .f 4),
   (0x3E, .f 5), (0x3F, .f 6), (0x40, .f 7), (0x41, .f 8), (0x42, .f 9), (0x43, .f 10),
   (0x44, .f 11), (0x45, .f 12), (0x46, .printScr), (0x48, .pause), (0x49, .insert), (0x4A, .home),
   (0x4B, .pageUp), (0x4C, .delete), (0x4D, .end), (0x4E, .pageDown), (0x4F, .rightArrow),
   (0x50, .leftArrow), (0x51, .downArrow), (0x52, .upArrow), (0x53, .numlock), (0x68, .f 13),
   (0x69, .f 14), (0x6A, .f 15), (0x6B, .f 16), (0x6C, .f 17), (0x6D, .f 18), (0x6E, .f 19),
   (0x6F, .f 20), (0xE0, .lControl), (0xE1, .lShift), (0xE2, .alt), (0xE6, .alt), (0xE3, .meta),
   (0xE7, .meta), (0xE4, .rControl), (0xE5, .rShift), (Consumer.MUTE, .volumeMute),
   (Consumer.VOLUME_DOWN, .volumeDown), (Consumer.VOLUME_UP, .volumeUp),
   (Consumer.PLAY_PAUSE, .mediaPlayPause), (Consumer.NEXT_TRACK, .mediaNextTrack),
   (Consumer.PREVIOUS_TRACK, .mediaPrevTrack), (Consumer.STOP, .mediaStop)]

/-- The virtual keys of Windows: the numeric keypad, Scroll Lock and Menu, launchers and browser
keys. -/
def windowsKeys : List (Nat × EKey) :=
  [(0x54, .other 0x6F), (0x55, .other 0x6A), (0x56, .other 0x6D), (0x57, .other 0x6B),
   (0x59, .other 0x61), (0x5A, .other 0x62), (0x5B, .other 0x63), (0x5C, .other 0x64),
   (0x5D, .other 0x65), (0x5E, .other 0x66), (0x5F, .other 0x67), (0x60, .other 0x68),
   (0x61, .other 0x69), (0x62, .other 0x60), (0x63, .other 0x6E), (0x47, .other 0x91), (0x65, .apps),
   (Consumer.MAIL, .other 0xB4), (Consumer.EXPLORER, .other 0xB6), (Consumer.CALCULATOR, .other 0xB7),
   (Consumer.BROWSER_BACK, .other 0xA6), (Consumer.BROWSER_FORWARD, .other 0xA7),
   (Consumer.BROWSER_REFRESH, .other 0xA8), (Consumer.BROWSER_STOP, .other 0xA9),
   (Consumer.BROWSER_SEARCH, .other 0xAA), (Consumer.BROWSER_FAVORITES, .other 0xAB),
   (Consumer.BROWSER_HOME, .other 0xAC)]

/-- The keysyms of X11. -/
def unixKeys : List (Nat × EKey) :=
  [(Consumer.BRIGHTNESS_UP, .other 0x1008FF02), (Consumer.BRIGHTNESS_DOWN, .other 0x1008FF03),
   (Consumer.MIC_MUTE, .other 0x1008FFB2), (Consumer.MAIL, .other 0x1008FF19),
   (Consumer.CALCULATOR, .other 0x1008FF1D), (Consumer.EXPLORER, .other 0x1008FF5D),
   (Consumer.BROWSER, .other 0x1008FF2E), (Consumer.BROWSER_SEARCH, .other 0x1008FF1B),
   (Consumer.BROWSER_HOME, .other 0x1008FF18), (Consumer.BROWSER_BACK, .other 0x1008FF26),
   (Consumer.BROWSER_FORWARD, .other 0x1008FF27), (Consumer.BROWSER_STOP, .other 0x1008FF28),
   (Consumer.BROWSER_REFRESH, .other 0x1008FF29), (Consumer.BROWSER_FAVORITES, .other 0x1008FF30)]

/-- Non-printable keys, identified purely by HID usage. -/
def namedKey (target : Target) (hid : Nat) : Option EKey :=
  (namedKeys.lookup hid).or <|
    match target with
    | .windows => windowsKeys.lookup hid
    | .unix => unixKeys.lookup hid
    | .macos => none

/-- Named keys by HID code, printable keys by the character the server's layout produced. -/
def keyFor (target : Target) (hid : Nat) (ch : Option Char) : Option EKey :=
  (namedKey target hid).or (ch.map .unicode)

/-- What the layout says about typing a character: the virtual key and the modifier bits it
needs, or `none` if it has no key there. -/
abbrev KeyLayout : Type := Char → Option (Nat × Nat)

namespace KeyLayout

/-- `win::lookup`: a character outside the BMP is always typed as text. -/
def lookup (layout : KeyLayout) (c : Char) : Option (Nat × Nat) :=
  if 0xFFFF < c.toNat then none else layout c

/-- The virtual key that types `c` with a modifier held, if the layout needs one. -/
def shiftedVk (layout : KeyLayout) (c : Char) : Option Nat :=
  ((layout.lookup c).filter fun k => k.2 != 0).map Prod.fst

/-- A printable character with no key on the layout. -/
def textOnly (layout : KeyLayout) (c : Char) : Bool :=
  let isControl := decide (c.toNat < 0x20) || decide (0x7F ≤ c.toNat ∧ c.toNat ≤ 0x9F)
  !isControl && (layout.lookup c).isNone

end KeyLayout

/-- Adjust a key to what this system's injection can type. -/
def osKey (target : Target) (layout : KeyLayout) : EKey → EKey
  | .unicode c =>
    match target, layout.shiftedVk c with
    | .windows, some vk => .other vk
    | _, _ => .unicode c
  | key => key

/-- How the key of an event is done. -/
inductive Typed where
  /-- Not at all. -/
  | ignored
  /-- As text: a press and a release at once. -/
  | text (key : EKey)
  /-- By holding a key down. -/
  | held (key : EKey)
deriving DecidableEq, Repr

/-- What a press of this key is done as. -/
def typedAs (target : Target) (layout : KeyLayout) (perform : Dict Nat Perform) (ev : KeyEvent) :
    Typed :=
  let key :=
    match resolve perform ev.hid, target with
    | .ignore, _ => none
    | .key hid, _ => keyFor target hid ev.ch
    | .keysym v, .unix => some (.other v)
    | .virtualKey v, .windows => some (.other v)
    -- `keys.toml` names a key of another system
    | _, _ => none
  match key with
  | none => .ignored
  | some key =>
    match target, osKey target layout key with
    | .windows, .unicode c => if layout.textOnly c then .text (.unicode c) else .held (.unicode c)
    | _, key => .held key

/-! ## Which button -/

def mapButton : Button → EBtn
  | .left => .left
  | .middle => .middle
  | .right => .right
  | .back => .back
  | .forward => .forward
  | .extra _ => .left

/-- The code a held button is remembered by, in eight bits. -/
def encodeButton : Button → Nat
  | .left => 0
  | .middle => 1
  | .right => 2
  | .back => 3
  | .forward => 4
  | .extra n => min (10 + n) 255

def decodeButton : Nat → Button
  | 0 => .left
  | 1 => .middle
  | 2 => .right
  | 3 => .back
  | 4 => .forward
  | n => .extra (n - 10)

/-- Wheel deltas are 120 per notch; a small delta still scrolls by one. The smallest `i32` is
its own absolute value. -/
def notches (delta : Int) : Int :=
  if delta = 0 then 0
  else if delta.natAbs < 120 ∨ delta = -2 ^ 31 then delta.sign
  else delta.tdiv 120

/-! ## The sink

What the sink keeps of the keys and buttons it holds, and what it tells the system. -/

/-- What is asked of the operating system. -/
inductive OsAction where
  | pressKey (key : EKey)
  | releaseKey (key : EKey)
  | pressButton (b : EBtn)
  | releaseButton (b : EBtn)
  | moveTo (x y : Int)
  | moveBy (dx dy : Int)
  | scroll (dx dy : Int)
deriving DecidableEq, Repr

structure EnigoSink where
  target : Target
  /-- The key pressed for every physical key that is held. -/
  heldKeys : Dict Nat EKey := ∅
  /-- The codes of the buttons that are held. -/
  heldButtons : Dict Nat Unit := ∅
  /-- This machine's own way of doing the special keys it is sent. -/
  perform : Dict Nat Perform := ∅

namespace EnigoSink

def enter (s : EnigoSink) (at_ : Point) : EnigoSink × List OsAction :=
  (s, [.moveTo at_.x at_.y])

/-- `EnigoSink::leave`: everything held is released, in whatever order the tables have. -/
def leave (s : EnigoSink) : EnigoSink × List OsAction :=
  ({ s with heldKeys := ∅, heldButtons := ∅ },
    s.heldKeys.entries.map (fun e => .releaseKey e.2)
      ++ s.heldButtons.entries.map fun e => .releaseButton (mapButton (decodeButton e.1)))

/-- `EnigoSink::key`, a `Down` or a `Repeat`: a repeat presses the key that is down already. -/
def press (s : EnigoSink) (layout : KeyLayout) (ev : KeyEvent) : EnigoSink × List OsAction :=
  match typedAs s.target layout s.perform ev with
  | .ignored => (s, [])
  | .text key => (s, [.pressKey key, .releaseKey key])
  | .held key =>
    match s.heldKeys.get? ev.hid with
    | some old => (s, [.pressKey old])
    | none => ({ s with heldKeys := s.heldKeys.put ev.hid key }, [.pressKey key])

/-- `EnigoSink::key`, an `Up`: release what was pressed. -/
def lift (s : EnigoSink) (hid : Nat) : EnigoSink × List OsAction :=
  match s.heldKeys.get? hid with
  | some key => ({ s with heldKeys := s.heldKeys.drop hid }, [.releaseKey key])
  | none => (s, [])

/-- `EnigoSink::key`. -/
def key (s : EnigoSink) (layout : KeyLayout) (ev : KeyEvent) : EnigoSink × List OsAction :=
  match ev.action with
  | .down | .repeat _ => s.press layout ev
  | .up => s.lift ev.hid

/-- `EnigoSink::mouse`. -/
def mouse (s : EnigoSink) : MouseEvent → EnigoSink × List OsAction
  | .moveAbs x y => (s, [.moveTo x y])
  | .moveRel dx dy => (s, [.moveBy dx dy])
  | .button button true =>
    ({ s with heldButtons := s.heldButtons.put (encodeButton button) () },
      [.pressButton (mapButton button)])
  | .button button false =>
    ({ s with heldButtons := s.heldButtons.drop (encodeButton button) },
      [.releaseButton (mapButton button)])
  | .wheel dx dy =>
    (s, (if dx ≠ 0 then [.scroll (notches dx) 0] else [])
      ++ if dy ≠ 0 then [.scroll 0 (-notches dy)] else [])

end EnigoSink

/-- A held button is let go of as what it was pressed as. -/
theorem mapButton_decode_encode (b : Button) :
    mapButton (decodeButton (encodeButton b)) = mapButton b := by
  cases b with
  | extra n =>
    obtain ⟨m, hm⟩ : ∃ m, min (10 + n) 255 = m + 5 := ⟨min (10 + n) 255 - 5, by omega⟩
    rw [encodeButton, hm]
    rfl
  | _ => rfl

end GeserDesk
