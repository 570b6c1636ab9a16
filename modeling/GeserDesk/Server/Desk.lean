import GeserDesk.Server.Layout
import Mathlib.Data.Rat.Floor

/-!
# The shared virtual desk — where each machine's monitors sit relative to the others

`geserdesk-server/src/desk.rs`. Every machine keeps its own coordinates; the desk gives it an
origin in one common space, and a stretch when it was given a desk size other than its real
one. The stretch factors are the source's `f64`, read here as exact rationals; with no size
set both factors are one and the map is the plain shift by the origin.
-/

namespace GeserDesk

/-- Assumed size of a machine whose monitors are not known yet. -/
def DEFAULT_SIZE : Int × Int := (1920, 1080)

/-- `f64::round`: to the nearest integer, halves away from zero. -/
def roundHalfAway (q : ℚ) : Int := if 0 ≤ q then ⌊q + 1 / 2⌋ else ⌈q - 1 / 2⌉

/-- How a machine's own coordinates map onto the desk: its origin, and a stretch. -/
structure Frame where
  origin : Point
  /-- Top-left of the machine's monitors; the stretch is about this point. -/
  base : Point
  sx : ℚ
  sy : ℚ
deriving DecidableEq

namespace Frame

/-- The factor from `have_` to `want`, one when either is not a real extent. -/
def ratio (want have_ : Int) : ℚ :=
  if 0 < want ∧ 0 < have_ then (want : ℚ) / (have_ : ℚ) else 1

/-- `bounds` is the union of the machine's monitors, `size` its desk size. -/
def new (origin : Point) (bounds : Option Rect) (size : Option Size) : Frame :=
  let b := bounds.getD ⟨0, 0, DEFAULT_SIZE.1, DEFAULT_SIZE.2⟩
  match size with
  | some s => ⟨origin, ⟨b.x, b.y⟩, ratio s.w b.w, ratio s.h b.h⟩
  | none => ⟨origin, ⟨b.x, b.y⟩, 1, 1⟩

/-- Where the machine's own point `p` is on the desk. -/
def toDesk (f : Frame) (p : Point) : Point :=
  let at_ (v base origin : Int) (s : ℚ) : Int := origin + base + roundHalfAway ((v - base : Int) * s)
  ⟨at_ p.x f.base.x f.origin.x f.sx, at_ p.y f.base.y f.origin.y f.sy⟩

/-- The machine's own point under the desk point `v`. -/
def toLocal (f : Frame) (v : Point) : Point :=
  let at_ (d base origin : Int) (s : ℚ) : Int := base + ⌊((d - origin - base : Int) : ℚ) / s⌋
  ⟨at_ v.x f.base.x f.origin.x f.sx, at_ v.y f.base.y f.origin.y f.sy⟩

/-- A monitor of the machine, as it lies on the desk. -/
def deskRect (f : Frame) (m : Rect) : Rect :=
  let a := f.toDesk ⟨m.left, m.top⟩
  let b := f.toDesk ⟨m.right, m.bottom⟩
  ⟨a.x, a.y, b.x - a.x, b.y - a.y⟩

end Frame

/-- The desk size of a machine with these monitors: `size` if one is set, else their extent. -/
def deskSize (monitors : List Rect) (size : Option Size) : Int × Int :=
  match size, Rect.unionAll monitors with
  | some s, _ => (s.w, s.h)
  | none, some r => (r.w, r.h)
  | none, none => DEFAULT_SIZE

/-- Where a screen of size `sizeB` goes beside one at `oa` of size `sizeA`. -/
def besideOrigin (oa : Point) (sizeA sizeB : Int × Int) : Edge → Point
  | .right => ⟨oa.x + sizeA.1, oa.y⟩
  | .left => ⟨oa.x - sizeB.1, oa.y⟩
  | .bottom => ⟨oa.x, oa.y + sizeA.2⟩
  | .top => ⟨oa.x, oa.y - sizeB.2⟩

section EffectiveOrigins

variable (order : List String) (layout : Layout) (sizeOf : String → Int × Int)

/-- Place the neighbour of `a` across `edge`, if it has one that is listed and unplaced. -/
def placeNeighbor (a : String) (acc : Dict String Point × List String) (edge : Edge) :
    Dict String Point × List String :=
  let (placed, queue) := acc
  match layout.neighbor a edge with
  | none => (placed, queue)
  | some b =>
    if (placed.get? b).isSome || !order.any (· == b) then (placed, queue)
    else
      let oa := (placed.get? a).getD ⟨0, 0⟩
      (placed.put b (besideOrigin oa (sizeOf a) (sizeOf b) edge), queue ++ [b])

/-- Follow links outwards from everything placed so far. Each pass takes one name off the
queue, and a name is queued at most once, so `order.length` passes empty it. -/
def followLinks : Nat → Dict String Point × List String → Dict String Point
  | 0, (placed, _) => placed
  | _ + 1, (placed, []) => placed
  | fuel + 1, (placed, a :: queue) =>
    followLinks fuel (Edge.all.foldl (placeNeighbor order layout sizeOf a) (placed, queue))

/-- Whatever is left goes in a row to the right, in config order. -/
def placeRow (placed : Dict String Point) (right : Int) : Dict String Point :=
  (order.foldl (fun (acc : Dict String Point × Int) name =>
    if (acc.1.get? name).isSome then acc
    else (acc.1.put name ⟨acc.2, 0⟩, acc.2 + (sizeOf name).1)) (placed, right)).1

/-- Work out an origin for every screen in `order`: a configured one keeps its own, others are
placed beside a neighbour along the links, and the rest go in a row to the right. -/
def effectiveOrigins (local_ : String) (configured : Dict String Point) : Dict String Point :=
  let placed : Dict String Point :=
    (configured.entries.filter fun e => order.contains e.1).foldl (fun m e => m.put e.1 e.2) ∅
  let placed := if (placed.get? local_).isSome then placed else placed.put local_ ⟨0, 0⟩
  let queue := order.filter fun n => (placed.get? n).isSome
  let placed := followLinks order layout sizeOf order.length (placed, queue)
  let rights := order.filterMap fun n => (placed.get? n).map fun o => o.x + (sizeOf n).1
  placeRow order sizeOf placed (rights.max?.getD 0)

end EffectiveOrigins

/-- Squared distance between two points. -/
def sqDist (p q : Point) : Int := (p.x - q.x) * (p.x - q.x) + (p.y - q.y) * (p.y - q.y)

/-- The point inside any of `monitors` closest to `p`, the first of them on a tie. -/
def nearestPoint (p : Point) (monitors : List Rect) : Point :=
  ((monitors.map fun m => m.clamp p).foldl (fun (best : Option Point) c =>
    match best with
    | none => some c
    | some b => if sqDist c p < sqDist b p then some c else some b) none).getD p

/-- Clamp `p` into `r`, staying `inset` pixels away from every side where the rectangle is big
enough; otherwise the centre. -/
def insetClamp (p : Point) (r : Rect) (inset : Int) : Point :=
  let axis (v lo len centre : Int) : Int :=
    if 2 * inset + 1 < len then max (lo + inset) (min v (lo + len - 1 - inset)) else centre
  let c := r.center
  ⟨axis p.x r.x r.w c.x, axis p.y r.y r.h c.y⟩

end GeserDesk
