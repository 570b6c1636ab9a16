import GeserDesk.Lib.Dict
import GeserDesk.Lib.Paths
import GeserDesk.Proto.Geometry

/-!
# Screen layout: adjacency and switch policy

`geserdesk-server/src/layout.rs`: the names of the screens with their per-edge neighbours, and
the gates (double tap, dwell, corner, scroll lock) a cursor at a screen edge has to pass.
-/

namespace GeserDesk

/-- `char::is_whitespace`: the Unicode property `White_Space`. -/
def isWhitespace (c : Char) : Bool :=
  c.val ∈ [0x20, 0x85, 0xA0, 0x1680, 0x2028, 0x2029, 0x202F, 0x205F, 0x3000]
    || (0x09 ≤ c.val && c.val ≤ 0x0D) || (0x2000 ≤ c.val && c.val ≤ 0x200A)

/-- Whether `name` is acceptable as a screen name for a machine that asks to join: not empty,
not long, no padding, no control characters. -/
def validScreenName (name : String) : Bool :=
  name ≠ "" && name.utf8ByteSize ≤ 64
    && !name.toList.head?.any isWhitespace && !name.toList.getLast?.any isWhitespace
    && !name.toList.any isControl

/-- The static arrangement of screens: names plus per-edge neighbours. -/
structure Layout where
  screens : List String
  /-- `links[from][edge] = to` -/
  links : Dict String (Dict Edge String) := ∅

namespace Layout

def hasScreen (l : Layout) (name : String) : Bool := l.screens.any (· == name)

/-- Add a screen the config did not list; `false` if the name was already there. -/
def addScreen (l : Layout) (name : String) : Layout × Bool :=
  if l.hasScreen name then (l, false) else ({ l with screens := l.screens ++ [name] }, true)

/-- The screen reached by leaving `from` across `edge`, if any. -/
def neighbor (l : Layout) (from_ : String) (edge : Edge) : Option String :=
  match l.links.get? from_ with
  | some m => m.get? edge
  | none => none

end Layout

/-- Tunables governing whether a cursor at a screen edge actually switches screens. -/
structure SwitchPolicy where
  /-- Cursor must rest against the edge for this many ms (0 disables). -/
  delayMs : Nat := 0
  /-- Cursor must touch the edge twice within this many ms (0 disables). -/
  doubleTapMs : Nat := 0
  /-- Only switch within this many px of a screen corner (0 = whole edge). -/
  cornerSize : Int := 0
  /-- Width of the edge band that counts as "at the edge". -/
  jumpZone : Int := 1
  scrollLockLocks : Bool := true
deriving DecidableEq, Repr

inductive Decision where
  | switch
  | wait
  | blocked
deriving DecidableEq, Repr

/-- Mutable state threaded between `evaluate` calls. -/
structure SwitchState where
  /-- Scroll Lock engaged. -/
  locked : Bool := false
  /-- A dwell in progress: the edge and when it started. -/
  dwell : Option (Edge × Nat) := none
  /-- Last edge tap seen and when, for double-tap detection. -/
  lastTap : Option (Edge × Nat) := none
deriving DecidableEq, Repr

namespace SwitchState

def leftEdge (s : SwitchState) : SwitchState := { s with dwell := none }

def switched (s : SwitchState) : SwitchState := { s with dwell := none, lastTap := none }

/-- Gate 2: the dwell delay. -/
def evaluateDwell (s : SwitchState) (policy : SwitchPolicy) (nowMs : Nat) (edge : Edge) :
    SwitchState × Decision :=
  if 0 < policy.delayMs then
    match s.dwell with
    | some (e, started) =>
      if e = edge then
        if policy.delayMs ≤ nowMs - started then (s.switched, .switch) else (s, .wait)
      else ({ s with dwell := some (edge, nowMs) }, .wait)
    | none => ({ s with dwell := some (edge, nowMs) }, .wait)
  else (s.switched, .switch)

/-- Decide whether the cursor, now in the `edge` band, should switch at time `nowMs`.
Differences of times saturate at zero, as the source's do. -/
def evaluate (s : SwitchState) (policy : SwitchPolicy) (nowMs : Nat) (edge : Edge)
    (hasNeighbor inCorner : Bool) : SwitchState × Decision :=
  if !hasNeighbor || !inCorner then (s.leftEdge, .blocked)
  else if s.locked && policy.scrollLockLocks then (s.leftEdge, .blocked)
  else if 0 < policy.doubleTapMs then
    -- Gate 1: the double tap takes precedence when enabled.
    let secondTap : Bool := match s.lastTap with
      | some (e, t) => decide (e = edge) && decide (nowMs - t ≤ policy.doubleTapMs)
      | none => false
    let s := { s with lastTap := some (edge, nowMs) }
    if !secondTap then (s, .wait) else s.evaluateDwell policy nowMs edge
  else s.evaluateDwell policy nowMs edge

end SwitchState

end GeserDesk
