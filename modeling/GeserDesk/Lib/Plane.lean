import Mathlib.Data.Set.Basic

/-!
# One cursor over several areas

A plane is divided among places, each with an area of its own; one of them is home. A cursor over
a place is moved: it stays where the move takes it while that is in the place's area, goes over
to the place whose area it is in, and otherwise stops at the nearest point of its own area. Home
is left to put the cursor a little further in.
-/

universe u v w

/-- Places on a plane, and what depends on the plane's geometry. -/
structure Plane (ι : Type u) (V : Type v) where
  area : ι → Set V
  home : ι
  dist : V → V → Int
  /-- Where a cursor that comes home at a point may be put. -/
  pulled : V → V → Prop

namespace Plane

variable {ι : Type u} {V : Type v} {D : Type w}

/-- Where the cursor is: over a place, or handed back to home at a point. -/
inductive Cursor (ι : Type u) (V : Type v) where
  | on (i : ι) (v : V)
  | back (w : V)
deriving DecidableEq

/-- The place that has the cursor. -/
def holder (P : Plane ι V) : Cursor ι V → ι
  | .on i _ => i
  | .back _ => P.home

/-- What becomes of a cursor over `i` that a move takes to `v`. -/
inductive Moves (P : Plane ι V) (i : ι) (v : V) : Cursor ι V → Prop where
  | stays (hin : v ∈ P.area i) : Moves P i v (.on i v)
  | goes {j : ι} (hout : v ∉ P.area i) (hj : j ≠ P.home) (hin : v ∈ P.area j) :
      Moves P i v (.on j v)
  | returns {w : V} (hout : v ∉ P.area i) (hin : v ∈ P.area P.home) (hw : P.pulled v w) :
      Moves P i v (.back w)
  | stops {w : V} (hnone : ∀ j, v ∉ P.area j) (hw : w ∈ P.area i)
      (hnear : ∀ u ∈ P.area i, P.dist w v ≤ P.dist u v) : Moves P i v (.on i w)

/-- No point belongs to two places. -/
def Apart (P : Plane ι V) : Prop := ∀ i j, i ≠ j → ∀ v, ¬ (v ∈ P.area i ∧ v ∈ P.area j)

/-- Moves one after another, until the cursor is back home. -/
inductive Travels (P : Plane ι V) (shift : V → D → V) : ι → V → List D → Cursor ι V → Prop where
  | done (i : ι) (v : V) : Travels P shift i v [] (.on i v)
  | move {i j : ι} {v w : V} {d : D} {ds : List D} {cur : Cursor ι V}
      (hm : P.Moves i (shift v d) (.on j w)) (ht : Travels P shift j w ds cur) :
      Travels P shift i v (d :: ds) cur
  | back {i : ι} {v w : V} {d : D} {ds : List D} (hm : P.Moves i (shift v d) (.back w)) :
      Travels P shift i v (d :: ds) (.back w)

end Plane
