import GeserDesk.Proto.Geometry

/-!
# Key and mouse events, and the key rules of a machine

`geserdesk-proto/src/input.rs`, and the part of `keys.rs` that matches a key press against a
rule. A modifier mask is the source's `u32` of flags.
-/

namespace GeserDesk

/-- Active modifier keys, as a bitmask. -/
structure ModMask where
  bits : BitVec 32
deriving DecidableEq, Repr

namespace ModMask

def SHIFT : ModMask := ⟨0x0001⟩
def CONTROL : ModMask := ⟨0x0002⟩
def ALT : ModMask := ⟨0x0004⟩
def SUPER : ModMask := ⟨0x0010⟩
def ALT_GR : ModMask := ⟨0x0020⟩
def CAPS_LOCK : ModMask := ⟨0x1000⟩
def NUM_LOCK : ModMask := ⟨0x2000⟩

def empty : ModMask := ⟨0⟩

def contains (m other : ModMask) : Bool := m.bits &&& other.bits == other.bits

def set (m other : ModMask) (on : Bool) : ModMask :=
  if on then ⟨m.bits ||| other.bits⟩ else ⟨m.bits &&& ~~~other.bits⟩

end ModMask

/-- What happened to a key; a repeat carries its count since the last distinct event. -/
inductive KeyAction where
  | down
  | up
  | repeat (n : Nat)
deriving DecidableEq, Repr

/-- A single key event. `hid` is the physical key, `ch` the character the server's layout
produced. -/
structure KeyEvent where
  hid : Nat
  ch : Option Char
  mods : ModMask
  action : KeyAction
deriving DecidableEq, Repr

inductive Button where
  | left | middle | right | back | forward
  | extra (index : Nat)
deriving DecidableEq, Repr

/-- A single mouse event. -/
inductive MouseEvent where
  | moveAbs (x y : Int)
  | moveRel (dx dy : Int)
  | button (button : Button) (down : Bool)
  | wheel (dx dy : Int)
deriving DecidableEq, Repr

/-- A key combination that stands for an action. -/
structure Rule where
  /-- The modifiers that must be held (no more, no fewer; the lock keys do not count). -/
  mods : ModMask
  hid : Nat
  action : Nat
deriving DecidableEq, Repr

/-- The modifiers that count in a rule: the lock keys are left out. -/
def ruleMods (mods : ModMask) : ModMask :=
  ⟨mods.bits &&& (ModMask.SHIFT.bits ||| ModMask.CONTROL.bits ||| ModMask.ALT.bits
    ||| ModMask.SUPER.bits ||| ModMask.ALT_GR.bits)⟩

/-- Whether a key press with these modifiers is this rule's combination. -/
def Rule.matches (r : Rule) (hid : Nat) (mods : ModMask) : Bool :=
  r.hid == hid && ruleMods mods == r.mods

end GeserDesk
