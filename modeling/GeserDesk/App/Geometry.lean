import GeserDesk.Lib.Scan
import Mathlib

/-!
# The layout editor's geometry

`apps/desktop/src/lib/geometry.ts`: machines placed on a desk, stretched about the top-left of
their monitors, and the side of one dragged. The source's numbers are read as rationals.

* **`union_deskRects`**: a machine covers the desk from its origin and its monitors' top-left on, as
  wide and high as its size, rounded.
-/

namespace GeserDesk

namespace Editor

/-- Smallest width or height a machine may be shrunk to on the desk. -/
def MIN_DESK_SIZE : ℚ := 64

/-- `Math.round`: to the nearest integer, halves up. -/
def mathRound (q : ℚ) : ℚ := (⌊q + 1 / 2⌋ : ℤ)

structure Rect where
  x : ℚ
  y : ℚ
  w : ℚ
  h : ℚ
deriving DecidableEq

/-- Where a machine is placed; no size means the machine's real size. -/
structure Placement where
  x : ℚ
  y : ℚ
  w : Option ℚ := none
  h : Option ℚ := none
deriving DecidableEq

/-- A machine that is shown. -/
structure Placed where
  name : String
  monitors : List Rect

/-- The smallest rectangle around `rects`; nothing where the source's ends at infinities. -/
def union : List Rect → Option Rect
  | [] => none
  | m :: rest =>
    let l := rest.foldl (fun l m => min l m.x) m.x
    let t := rest.foldl (fun t m => min t m.y) m.y
    let r := rest.foldl (fun r m => max r (m.x + m.w)) (m.x + m.w)
    let b := rest.foldl (fun b m => max b (m.y + m.h)) (m.y + m.h)
    some ⟨l, t, r - l, b - t⟩

/-- How much a real extent is stretched to the one wanted; a zero is none wanted. -/
def factor (want : Option ℚ) (real : ℚ) : ℚ :=
  match want with
  | some w => if w ≠ 0 ∧ 0 < real then w / real else 1
  | none => 1

def edge (v base origin k : ℚ) : ℚ := origin + base + mathRound ((v - base) * k)

/-- A machine's monitors on the shared desk when it is placed at `o`. A machine given a size is
stretched about the top-left of its monitors. -/
def deskRects (monitors : List Rect) (o : Placement) : List Rect :=
  match union monitors with
  | none => []
  | some n =>
    let sx := factor o.w n.w
    let sy := factor o.h n.h
    monitors.map fun m =>
      let x := edge m.x n.x o.x sx
      let y := edge m.y n.y o.y sy
      ⟨x, y, edge (m.x + m.w) n.x o.x sx - x, edge (m.y + m.h) n.y o.y sy - y⟩

/-- Whether `o` gives the machine a desk size different from its real one. -/
def isStretched (monitors : List Rect) (o : Option Placement) : Bool :=
  match o, union monitors with
  | some o, some n => o.w.any (· ≠ n.w) || o.h.any (· ≠ n.h)
  | _, _ => false

/-- The desk size to send: none for the machine's real size. -/
def deskSize (monitors : List Rect) (o : Placement) : Option (ℚ × ℚ) :=
  if isStretched monitors (some o) then
    (union monitors).map fun n => (o.w.getD n.w, o.h.getD n.h)
  else none

/-! ## Dragging a side

A grip holds one end of a side, or both. The end that moves is pulled to an edge nearby, and the
side keeps a least length. -/

/-- Which end of an axis a grip names: -1, 0 or 1 in the source. -/
inductive End where
  | low
  | neither
  | high
deriving DecidableEq

structure Grip where
  fx : End
  fy : End
deriving DecidableEq

/-- A coordinate pulled onto an edge near it. -/
def pull (thr v : ℚ) (edges : List ℚ) : ℚ :=
  edges.foldl (fun best e =>
    if |e - v| ≤ thr ∧ (best = v ∨ |e - v| < |best - v|) then e else best) v

/-- The sides of the box along one axis, one of them dragged by `d`. -/
def draggedSides (g : End) (lo hi d : ℚ) (edges : List ℚ) (thr : ℚ) : ℚ × ℚ :=
  match g with
  | .high => (lo, max (lo + MIN_DESK_SIZE) (pull thr (mathRound (hi + d)) edges))
  | .low => (min (hi - MIN_DESK_SIZE) (pull thr (mathRound (lo + d)) edges), hi)
  | .neither => (lo, hi)

/-- The machine placed at `start`, with the sides named by `grip` dragged by `(dx, dy)`. A side near
an edge of another machine, within `thr`, is pulled onto it. -/
def resized (monitors : List Rect) (start : Placement) (grip : Grip) (dx dy : ℚ)
    (others : List Rect) (thr : ℚ) : Option Placement := do
  let n ← union monitors
  let box ← union (deskRects monitors start)
  let xs := others.flatMap fun r => [r.x, r.x + r.w]
  let ys := others.flatMap fun r => [r.y, r.y + r.h]
  let sx := draggedSides grip.fx box.x (box.x + box.w) dx xs thr
  let sy := draggedSides grip.fy box.y (box.y + box.h) dy ys thr
  -- The box's top-left sits at origin + the monitors' top-left, so give that back.
  some { x := sx.1 - n.x, y := sy.1 - n.y, w := some (sx.2 - sx.1), h := some (sy.2 - sy.1) }

/-! ## Overlaps -/

/-- Whether two rectangles share any area; touching edges do not count. -/
def hit (a b : Rect) : Bool :=
  decide (a.x < b.x + b.w) && decide (b.x < a.x + a.w) && decide (a.y < b.y + b.h)
    && decide (b.y < a.y + a.h)

/-- The pairs of machines, an earlier and a later one, that share any area. -/
def hitPairs : List (String × List Rect) → List (String × String)
  | [] => []
  | a :: rest =>
    ((rest.filter fun b => a.2.any fun x => b.2.any fun y => hit x y).map fun b => (a.1, b.1))
      ++ hitPairs rest

/-- Names of the screens that overlap another one. -/
def overlapping (screens : List Placed) (draft : String → Placement) : List String :=
  let all := screens.map fun s => (s.name, deskRects s.monitors (draft s.name))
  (hitPairs all).foldl (fun bad p => (bad.insert p.1).insert p.2) []

/-! ## The union

The least rectangle round all the monitors. It exists as soon as there is a monitor, and is as
real as they are. -/

/-- The least size is positive. -/
theorem min_pos : 0 < MIN_DESK_SIZE := by norm_num [MIN_DESK_SIZE]

/-- There is a monitor, and none is empty. -/
def RealMonitors (ms : List Rect) : Prop := ms ≠ [] ∧ ∀ m ∈ ms, 0 < m.w ∧ 0 < m.h

instance (ms : List Rect) : Decidable (RealMonitors ms) := inferInstanceAs (Decidable (_ ∧ _))

/-- The sides of the union: the least and the greatest there are. -/
structure IsUnion (rects : List Rect) (u : Rect) : Prop where
  left : IsLeast ((fun m : Rect => m.x) '' {m | m ∈ rects}) u.x
  top : IsLeast ((fun m : Rect => m.y) '' {m | m ∈ rects}) u.y
  right : IsGreatest ((fun m : Rect => m.x + m.w) '' {m | m ∈ rects}) (u.x + u.w)
  bottom : IsGreatest ((fun m : Rect => m.y + m.h) '' {m | m ∈ rects}) (u.y + u.h)

/-- What the loop of `union` gives is the union. -/
theorem isUnion_of_union {rects : List Rect} {u : Rect} (h : union rects = some u) :
    IsUnion rects u := by
  cases rects with
  | nil => cases h
  | cons m rest =>
    cases h
    refine ⟨Scan.isLeast_foldl_min _ m rest, Scan.isLeast_foldl_min _ m rest, ?_, ?_⟩
    · rw [add_sub_cancel]
      exact Scan.isGreatest_foldl_max (fun m : Rect => m.x + m.w) m rest
    · rw [add_sub_cancel]
      exact Scan.isGreatest_foldl_max (fun m : Rect => m.y + m.h) m rest

/-- There is a union as soon as there is a rectangle. -/
theorem exists_union {rects : List Rect} (h : rects ≠ []) : ∃ u, union rects = some u := by
  cases rects with
  | nil => exact absurd rfl h
  | cons m rest => exact ⟨_, rfl⟩

/-- A machine is stretched just if a size is asked for that is not its own. -/
theorem isStretched_eq {ms : List Rect} {n : Rect} (hn : union ms = some n) (o : Placement) :
    isStretched ms (some o) = (o.w.any (· ≠ n.w) || o.h.any (· ≠ n.h)) := by
  unfold isStretched
  rw [hn]

/-- The union of monitors that are not empty is not. -/
theorem union_real {ms : List Rect} (hms : RealMonitors ms) {n : Rect} (hn : union ms = some n) :
    0 < n.w ∧ 0 < n.h := by
  have hu := isUnion_of_union hn
  obtain ⟨⟨m, hm, hmx⟩, -⟩ := hu.left
  obtain ⟨⟨m', hm', hmy⟩, -⟩ := hu.top
  have hright := hu.right.2 ⟨m, hm, rfl⟩
  have hbottom := hu.bottom.2 ⟨m', hm', rfl⟩
  have hw := (hms.2 m hm).1
  have hh := (hms.2 m' hm').2
  dsimp only at hmx hmy hright hbottom
  constructor <;> linarith

/-! ## Placing a machine

Every monitor is stretched by the machine's factors and rounded. Rounding keeps the order of the
edges, so the union of what is drawn is what the ends are drawn as. -/

/-- A whole number is rounded to itself. -/
theorem mathRound_int (z : ℤ) : mathRound z = z := by
  have hhalf : ⌊(1 / 2 : ℚ)⌋ = 0 := by norm_num
  rw [mathRound, Int.floor_intCast_add, hhalf, add_zero]

/-- Rounding keeps the order. -/
theorem mathRound_mono {p q : ℚ} (h : p ≤ q) : mathRound p ≤ mathRound q := by
  have hfloor : ⌊p + 1 / 2⌋ ≤ ⌊q + 1 / 2⌋ := Int.floor_le_floor (by linarith)
  exact Int.cast_le.mpr hfloor

/-- The base is drawn at the origin. -/
theorem edge_base (base origin k : ℚ) : edge base base origin k = origin + base := by
  have hzero : mathRound 0 = 0 := by exact_mod_cast mathRound_int 0
  rw [edge, sub_self, zero_mul, hzero, add_zero]

/-- Scaling by a positive factor keeps the order. -/
theorem edge_mono {k : ℚ} (hk : 0 < k) (base origin : ℚ) :
    Monotone fun v => edge v base origin k := by
  intro v v' h
  have hmul : (v - base) * k ≤ (v' - base) * k :=
    mul_le_mul_of_nonneg_right (by linarith) hk.le
  have hround := mathRound_mono hmul
  simp only [edge]
  linarith

/-- A machine with monitors is drawn with a box. -/
theorem exists_union_deskRects {ms : List Rect} (hms : ms ≠ []) (o : Placement) :
    ∃ box, union (deskRects ms o) = some box := by
  obtain ⟨n, hn⟩ := exists_union hms
  refine exists_union fun hnil => ?_
  rw [deskRects, hn] at hnil
  exact hms (List.map_eq_nil_iff.mp hnil)

/-- The sides of a machine on the desk: the least and the greatest of the sides of its monitors. -/
theorem deskRects_sides {ms : List Rect} {o : Placement} {n box : Rect} (hn : union ms = some n)
    (hbox : union (deskRects ms o) = some box) :
    (IsLeast ((fun m : Rect => edge m.x n.x o.x (factor o.w n.w)) '' {m | m ∈ ms}) box.x
      ∧ IsGreatest ((fun m : Rect => edge (m.x + m.w) n.x o.x (factor o.w n.w)) '' {m | m ∈ ms})
        (box.x + box.w))
    ∧ IsLeast ((fun m : Rect => edge m.y n.y o.y (factor o.h n.h)) '' {m | m ∈ ms}) box.y
      ∧ IsGreatest ((fun m : Rect => edge (m.y + m.h) n.y o.y (factor o.h n.h)) '' {m | m ∈ ms})
        (box.y + box.h) := by
  have hu := isUnion_of_union hbox
  have himage : ∀ f : Rect → ℚ, f '' {m | m ∈ deskRects ms o}
      = (fun m : Rect => f ⟨edge m.x n.x o.x (factor o.w n.w), edge m.y n.y o.y (factor o.h n.h),
        edge (m.x + m.w) n.x o.x (factor o.w n.w) - edge m.x n.x o.x (factor o.w n.w),
        edge (m.y + m.h) n.y o.y (factor o.h n.h) - edge m.y n.y o.y (factor o.h n.h)⟩)
        '' {m | m ∈ ms} := by
    intro f
    ext q
    simp only [deskRects, hn, Set.mem_image, List.mem_map, Set.mem_ofPred_eq,
      exists_exists_and_eq_and]
  have hleft := hu.left
  have htop := hu.top
  have hright := hu.right
  have hbottom := hu.bottom
  rw [himage] at hleft htop hright hbottom
  simp only [add_sub_cancel] at hright hbottom
  exact ⟨⟨hleft, hright⟩, htop, hbottom⟩

/-- The side of a machine that is stretched, or not, is where its monitors' is. -/
theorem isLeast_edge {ms : List Rect} {f : Rect → ℚ} {base origin k : ℚ} (hk : 0 < k)
    (h : IsLeast (f '' {m | m ∈ ms}) base) :
    IsLeast ((fun m => edge (f m) base origin k) '' {m | m ∈ ms}) (origin + base) := by
  have hedge := (edge_mono hk base origin).map_isLeast h
  rwa [edge_base, Set.image_image] at hedge

/-- The far end of a scaled machine is its far edge scaled. -/
theorem isGreatest_edge {ms : List Rect} {f : Rect → ℚ} {base origin k w : ℚ} (hk : 0 < k)
    (h : IsGreatest (f '' {m | m ∈ ms}) (base + w)) :
    IsGreatest ((fun m => edge (f m) base origin k) '' {m | m ∈ ms})
      (origin + base + mathRound (w * k)) := by
  have hedge := (edge_mono hk base origin).map_isGreatest h
  have hend : edge (base + w) base origin k = origin + base + mathRound (w * k) := by
    rw [edge, add_sub_cancel_left]
  rwa [hend, Set.image_image] at hedge

/-- A machine covers the desk from its origin and its monitors' top-left on. -/
theorem union_deskRects {ms : List Rect} (o : Placement) {n : Rect} (hn : union ms = some n)
    (hx : 0 < factor o.w n.w) (hy : 0 < factor o.h n.h) :
    union (deskRects ms o) = some ⟨o.x + n.x, o.y + n.y, mathRound (n.w * factor o.w n.w),
      mathRound (n.h * factor o.h n.h)⟩ := by
  have hu := isUnion_of_union hn
  have hne : ms ≠ [] := by
    rintro rfl
    cases hn
  obtain ⟨box, hbox⟩ := exists_union_deskRects hne o
  obtain ⟨⟨hleft, hright⟩, htop, hbottom⟩ := deskRects_sides hn hbox
  have hboxx := hleft.unique (isLeast_edge hx hu.left)
  have hboxy := htop.unique (isLeast_edge hy hu.top)
  have hboxw := hright.unique (isGreatest_edge hx hu.right)
  have hboxh := hbottom.unique (isGreatest_edge hy hu.bottom)
  rw [hboxx, add_right_inj] at hboxw
  rw [hboxy, add_right_inj] at hboxh
  rw [hbox]
  cases box
  simp_all

end Editor

end GeserDesk
