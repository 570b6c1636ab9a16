import Mathlib.Data.Int.Basic
import Mathlib.Data.List.Basic

/-!
# Screen geometry — points, rectangles and the four edges a cursor can cross

The shapes of `geserdesk-proto/src/geometry.rs`. Coordinates are the source's `i32`, read as
integers: the operations below never leave that range for the values a server accepts.
-/

namespace GeserDesk

/-- A point in absolute screen coordinates. -/
structure Point where
  x : Int
  y : Int
deriving DecidableEq, Repr

/-- A width and a height. -/
structure Size where
  w : Int
  h : Int
deriving DecidableEq, Repr

/-- An axis-aligned rectangle, `[x, x+w)` by `[y, y+h)`. -/
structure Rect where
  x : Int
  y : Int
  w : Int
  h : Int
deriving DecidableEq, Repr

namespace Rect

def left (r : Rect) : Int := r.x
def top (r : Rect) : Int := r.y
def right (r : Rect) : Int := r.x + r.w
def bottom (r : Rect) : Int := r.y + r.h

/-- Integer division rounds towards zero, as the source's does. -/
def center (r : Rect) : Point := ⟨r.x + r.w.tdiv 2, r.y + r.h.tdiv 2⟩

/-- The smallest rectangle containing every rectangle in `rects`; `none` for none. -/
def unionAll : List Rect → Option Rect
  | [] => none
  | first :: rest =>
    let l := rest.foldl (fun l rc => min l rc.left) first.left
    let t := rest.foldl (fun t rc => min t rc.top) first.top
    let r := rest.foldl (fun r rc => max r rc.right) first.right
    let b := rest.foldl (fun b rc => max b rc.bottom) first.bottom
    some ⟨l, t, r - l, b - t⟩

def contains (r : Rect) (p : Point) : Bool :=
  decide (r.left ≤ p.x) && decide (p.x < r.right) && decide (r.top ≤ p.y)
    && decide (p.y < r.bottom)

/-- Clamp a point into the rectangle, inclusive of the far edge minus one pixel. -/
def clamp (r : Rect) (p : Point) : Point :=
  ⟨max r.left (min p.x (r.right - 1)), max r.top (min p.y (r.bottom - 1))⟩

end Rect

/-- One side of a screen. -/
inductive Edge where
  | left | right | top | bottom
deriving DecidableEq, Repr

/-- `Edge::ALL`, in the order the router tries them. -/
def Edge.all : List Edge := [.left, .right, .top, .bottom]

/-- A screen's identity and geometry, as a client reports it. -/
structure ScreenInfo where
  name : String
  /-- Full desktop bounds (union of all monitors on that machine). -/
  bounds : Rect
  monitors : List Rect
  cursor : Point
deriving DecidableEq, Repr

end GeserDesk
