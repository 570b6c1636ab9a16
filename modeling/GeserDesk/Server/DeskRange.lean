import GeserDesk.Server.CoordBounds
import GeserDesk.Server.AutoPlacement

/-!
# How far desk arithmetic goes

For each function of `desk.rs`, `geometry.rs` and `router.rs` that adds, subtracts or multiplies
coordinates, the `i32` results it comes to on the way, and how large they get: everything outside
is within a million, and then what decides is how far the origins are and how much a machine is
stretched.
-/

namespace GeserDesk

/-- What an `i32` holds. -/
def I32 (v : Int) : Prop := -2147483648 ≤ v ∧ v ≤ 2147483647

instance (v : Int) : Decidable (I32 v) := inferInstanceAs (Decidable (_ ∧ _))

/-- None of these overflows. -/
def SumsFit (sums : List Int) : Prop := ∀ v ∈ sums, I32 v

instance (sums : List Int) : Decidable (SumsFit sums) := inferInstanceAs (Decidable (∀ v ∈ sums, _))

@[simp] theorem fits_nil : SumsFit [] := nofun

@[simp] theorem fits_cons (v : Int) (sums : List Int) :
    SumsFit (v :: sums) ↔ I32 v ∧ SumsFit sums :=
  List.forall_mem_cons

/-- The sums of two parts fit if and only if each part's do. -/
@[simp] theorem fits_append (a b : List Int) : SumsFit (a ++ b) ↔ SumsFit a ∧ SumsFit b :=
  List.forall_mem_append

/-- Sums worked out for every element of a list fit if and only if they fit for each. -/
theorem fits_flatMap {α : Type} {l : List α} {f : α → List Int} :
    SumsFit (l.flatMap f) ↔ ∀ x ∈ l, SumsFit (f x) := by
  unfold SumsFit
  simp only [List.mem_flatMap]
  exact ⟨fun h x hx v hv => h v ⟨x, hx, hv⟩, fun h v ⟨x, hx, hv⟩ => h x hx v hv⟩

/-- `as i32` from a float. -/
def asI32 (v : Int) : Int := max (-2147483648) (min v 2147483647)

/-! ## What is computed on the way

The sums and differences each function of the geometry computes, as lists. Nothing overflows when
all of them fit. -/

namespace Rect

/-- `right` and `bottom`. -/
def edgeSums (r : Rect) : List Int := [r.x + r.w, r.y + r.h]

def unionSums (rects : List Rect) : List Int :=
  rects.flatMap edgeSums ++ ((unionAll rects).elim [] fun u => [u.w, u.h])

def clampSums (r : Rect) : List Int := [r.x + r.w, r.x + r.w - 1, r.y + r.h, r.y + r.h - 1]

end Rect

/-- The squares are `i64`; the differences are not. -/
def nearestSums (p : Point) (monitors : List Rect) : List Int :=
  monitors.flatMap fun m => m.clampSums ++ [(m.clamp p).x - p.x, (m.clamp p).y - p.y]

namespace Frame

def toDeskSums (f : Frame) (p : Point) : List Int :=
  let at_ (v base origin : Int) (s : ℚ) : List Int :=
    [v - base, origin + base, origin + base + asI32 (roundHalfAway ((v - base : Int) * s))]
  at_ p.x f.base.x f.origin.x f.sx ++ at_ p.y f.base.y f.origin.y f.sy

def toLocalSums (f : Frame) (v : Point) : List Int :=
  let at_ (d base origin : Int) (s : ℚ) : List Int :=
    [d - origin, d - origin - base, base + asI32 ⌊((d - origin - base : Int) : ℚ) / s⌋]
  at_ v.x f.base.x f.origin.x f.sx ++ at_ v.y f.base.y f.origin.y f.sy

def deskRectSums (f : Frame) (m : Rect) : List Int :=
  m.edgeSums ++ f.toDeskSums ⟨m.left, m.top⟩ ++ f.toDeskSums ⟨m.right, m.bottom⟩
    ++ [(f.deskRect m).w, (f.deskRect m).h]

end Frame

/-- A screen placed beside another or in the row has its origin from a sum, and the right end of
every screen is worked out for the row. -/
def effectiveOriginsSums (order : List String) (layout : Layout) (sizeOf : String → Int × Int)
    (local_ : String) (configured : Dict String Point) : List Int :=
  order.flatMap fun n =>
    ((effectiveOrigins order layout sizeOf local_ configured).get? n).elim [] fun o =>
      [o.x, o.y, o.x + (sizeOf n).1]

/-- For any of the edges. -/
def atEdgeSums (bounds : Rect) (jump : Int) : List Int :=
  bounds.edgeSums ++ [bounds.left + jump, bounds.right - jump, bounds.top + jump,
    bounds.bottom - jump]

def stepSums (p : Point) (n : Int) : List Int := [p.x - n, p.x + n, p.y - n, p.y + n]

def nearCornerSums (bounds : Rect) (p : Point) : List Int :=
  bounds.edgeSums ++ [p.x - bounds.left, bounds.right - 1, bounds.right - 1 - p.x,
    p.y - bounds.top, bounds.bottom - 1, bounds.bottom - 1 - p.y]

def insetClampSums (r : Rect) (inset : Int) : List Int :=
  let axis (lo len : Int) : List Int :=
    [2 * inset, 2 * inset + 1, lo + inset, lo + len, lo + len - 1, lo + len - 1 - inset]
  [r.center.x, r.center.y] ++ axis r.x r.w ++ axis r.y r.h

/-! ## How large it gets

Bounds for each of them, in terms of how far out the inputs are. -/

/-- No further from the origin than this, either way. -/
def Point.Upto (b : Int) (p : Point) : Prop := (-b ≤ p.x ∧ p.x ≤ b) ∧ -b ≤ p.y ∧ p.y ≤ b

instance (b : Int) (p : Point) : Decidable (p.Upto b) := inferInstanceAs (Decidable (_ ∧ _))

/-- A monitor as `sanitize_monitors` lets it through has an area. -/
theorem Rect.Bounded.real {r : Rect} (h : r.Bounded) : r.Real := ⟨h.1.1.1, h.1.2.1⟩

/-- The far edges of such a monitor are in range. -/
theorem edgeSums_fits {r : Rect} (h : r.Bounded) : SumsFit r.edgeSums := by
  unfold Rect.Bounded Rect.SaneExtent Point.Near at h
  simp only [Rect.edgeSums, fits_cons, I32, fits_nil, and_true]
  simp only at h
  omega

/-- A bound on every left side holds of the least one: the loop of `union_all` starts from a bounded
value and only takes smaller ones it meets. -/
theorem le_foldl_min (f : Rect → Int) {rest : List Rect} {b l : Int} (hl : b ≤ l)
    (hall : ∀ r ∈ rest, b ≤ f r) : b ≤ rest.foldl (fun l rc => min l (f rc)) l := by
  induction rest generalizing l with
  | nil => exact hl
  | cons rc rest ih =>
    exact ih (le_min hl (hall rc List.mem_cons_self)) fun r hr => hall r (List.mem_cons_of_mem _ hr)

/-- A bound on every far side holds of the greatest one. -/
theorem foldl_max_le (f : Rect → Int) {rest : List Rect} {b t : Int} (ht : t ≤ b)
    (hall : ∀ r ∈ rest, f r ≤ b) : rest.foldl (fun t rc => max t (f rc)) t ≤ b := by
  induction rest generalizing t with
  | nil => exact ht
  | cons rc rest ih =>
    exact ih (max_le ht (hall rc List.mem_cons_self)) fun r hr => hall r (List.mem_cons_of_mem _ hr)

/-- The union of bounded monitors is three times as large at most. -/
theorem unionAll_upto {rects : List Rect} {u : Rect} (h : ∀ r ∈ rects, r.Bounded)
    (hu : Rect.unionAll rects = some u) :
    (-1000000 ≤ u.x ∧ u.x ≤ 1000000) ∧ (-1000000 ≤ u.y ∧ u.y ≤ 1000000)
      ∧ (0 < u.w ∧ u.w ≤ 3000000) ∧ 0 < u.h ∧ u.h ≤ 3000000 := by
  have hreal := unionAll_real (fun m hm => (h m hm).real) hu
  cases rects with
  | nil => cases hu
  | cons first rest =>
    have hedges : ∀ r : Rect, r.Bounded → (-1000000 ≤ r.left ∧ r.left ≤ 1000000 ∧ r.right ≤ 2000000)
        ∧ -1000000 ≤ r.top ∧ r.top ≤ 1000000 ∧ r.bottom ≤ 2000000 := by
      intro r hr
      unfold Rect.Bounded Rect.SaneExtent Point.Near at hr
      simp only [Rect.left, Rect.right, Rect.top, Rect.bottom] at hr ⊢
      omega
    have hfirst := hedges first (h first List.mem_cons_self)
    have hrest := fun r (hr : r ∈ rest) => hedges r (h r (List.mem_cons_of_mem _ hr))
    have hl := le_foldl_min Rect.left (b := -1000000) (l := first.left) (by omega)
      fun r hr => (hrest r hr).1.1
    have ht := le_foldl_min Rect.top (b := -1000000) (l := first.top) (by omega)
      fun r hr => (hrest r hr).2.1
    have hr := foldl_max_le Rect.right (b := 2000000) (t := first.right) (by omega)
      fun r hr => (hrest r hr).1.2.2
    have hb := foldl_max_le Rect.bottom (b := 2000000) (t := first.bottom) (by omega)
      fun r hr => (hrest r hr).2.2.2
    have hl' := foldl_min_le Rect.left rest first.left
    have ht' := foldl_min_le Rect.top rest first.top
    obtain ⟨hw, hh⟩ := hreal
    cases hu
    simp only at hw hh ⊢
    omega

/-- `union_all` of bounded monitors stays in range: its ends are those of two of them. -/
theorem unionSums_fits {rects : List Rect} (h : ∀ r ∈ rects, r.Bounded) :
    SumsFit (Rect.unionSums rects) := by
  rw [Rect.unionSums, fits_append, fits_flatMap]
  refine ⟨fun r hr => edgeSums_fits (h r hr), ?_⟩
  cases hu : Rect.unionAll rects with
  | none => exact fits_nil
  | some u =>
    have hupto := unionAll_upto h hu
    simp only [Option.elim_some, fits_cons, I32, fits_nil, and_true]
    omega

/-- A point clamped into a monitor is no further out than the monitor's far edge. -/
theorem clamp_upto {r : Rect} (h : r.Bounded) (p : Point) : (r.clamp p).Upto 2000000 := by
  have hin := (Rect.contains_iff _ _).mp (Rect.clamp_inside h.real p)
  unfold Rect.Bounded Rect.SaneExtent Point.Near at h
  simp only [Rect.left, Rect.right, Rect.top, Rect.bottom] at hin h
  unfold Point.Upto
  omega

/-- The squares `nearest_point` compares are of points within reach, so they fit. -/
theorem nearestSums_fits {ms : List Rect} (h : ∀ m ∈ ms, m.Bounded) {p : Point}
    (hp : p.Upto 4000000) : SumsFit (nearestSums p ms) := by
  rw [nearestSums, fits_flatMap]
  intro m hm
  have hclamp := clamp_upto (h m hm) p
  have hbounded := h m hm
  unfold Rect.Bounded Rect.SaneExtent Point.Near at hbounded
  unfold Point.Upto at hp hclamp
  simp only [Rect.clampSums, fits_append, fits_cons, I32, fits_nil, and_true]
  simp only at hbounded
  omega

/-- A point on a bounded monitor is within twice the bound. -/
theorem onMonitor_upto {ms : List Rect} (h : ∀ m ∈ ms, m.Bounded) {p : Point}
    (hp : OnMonitor ms p) : p.Upto 2000000 := by
  obtain ⟨m, hm, hin⟩ := hp
  rw [← Rect.clamp_of_inside hin]
  exact clamp_upto (h m hm) p

/-! ## The map onto the desk

Scaling by a bounded factor and rounding keep a point near, so the map fits where its inputs do.
-/

/-- Rounding does not lead past a whole bound. -/
theorem roundHalfAway_upto {q : ℚ} {b : Int} (hb : -(b : ℚ) ≤ q ∧ q ≤ b) :
    -b ≤ roundHalfAway q ∧ roundHalfAway q ≤ b := by
  have hfloor : ∀ {r : ℚ}, r < (b : ℚ) + 1 → ⌊r⌋ ≤ b := fun hr =>
    Int.lt_add_one_iff.mp (Int.floor_lt.mpr (by push_cast; exact hr))
  have hceil : ∀ {r : ℚ}, -(b : ℚ) - 1 < r → -b ≤ ⌈r⌉ := fun hr =>
    Int.sub_one_lt_iff.mp (Int.lt_ceil.mpr (by push_cast; exact hr))
  unfold roundHalfAway
  split
  · next hpos =>
    refine ⟨?_, hfloor (by linarith)⟩
    have hzero : 0 ≤ ⌊q + 1 / 2⌋ := Int.floor_nonneg.mpr (by linarith)
    have hbpos : (0 : ℚ) ≤ b := hpos.trans hb.2
    have : 0 ≤ b := by exact_mod_cast hbpos
    omega
  · next hneg =>
    refine ⟨hceil (by linarith), ?_⟩
    have hzero : ⌈q - 1 / 2⌉ ≤ 0 := Int.ceil_le.mpr (by push_cast; linarith)
    have hbpos : (0 : ℚ) ≤ b := by linarith
    have : 0 ≤ b := by exact_mod_cast hbpos
    omega

/-- Nor does rounding down. -/
theorem floor_upto {q : ℚ} {b : Int} (hb : -(b : ℚ) ≤ q ∧ q ≤ b) : -b ≤ ⌊q⌋ ∧ ⌊q⌋ ≤ b :=
  ⟨Int.le_floor.mpr (by push_cast; exact hb.1), Int.floor_le_iff.mpr (by linarith)⟩

/-- How far an origin may be and how much a machine may be stretched or shrunk, for desk points
and what they are mapped back to to fit. -/
structure Limits where
  origin : Int
  stretch : Int
  origin_nonneg : 0 ≤ origin
  stretch_pos : 1 ≤ stretch
  fits : (2 * origin + 2000000 + 4000000 * stretch) * stretch + 1000000 ≤ 2147483647

/-- Where desk points may be. -/
def Limits.desk (L : Limits) : Int := L.origin + 1000000 + 4000000 * L.stretch

/-- The two inequalities on the limits that every sum below comes down to. -/
theorem Limits.bounds (L : Limits) : L.desk + L.origin + 1000000 ≤ 2146483647
    ∧ (L.desk + L.origin + 1000000) * L.stretch + 1000000 ≤ 2147483647 := by
  have hfits := L.fits
  have ho := L.origin_nonneg
  have hk := L.stretch_pos
  have heq : L.desk + L.origin + 1000000 = 2 * L.origin + 2000000 + 4000000 * L.stretch := by
    unfold desk
    ring
  rw [heq]
  refine ⟨?_, hfits⟩
  nlinarith

/-- A factor within the stretch allowed. -/
def Limits.Factor (L : Limits) (s : ℚ) : Prop := 1 ≤ s * L.stretch ∧ s ≤ L.stretch

structure Frame.Tame (L : Limits) (f : Frame) : Prop where
  origin : f.origin.Upto L.origin
  base : f.base.Upto 1000000
  sx : L.Factor f.sx
  sy : L.Factor f.sy

/-- A factor is positive, so dividing by it keeps the order. -/
theorem Limits.Factor.pos {L : Limits} {s : ℚ} (h : L.Factor s) : 0 < s := by
  have hk : (0 : ℚ) < L.stretch := by exact_mod_cast L.stretch_pos
  by_contra hs
  have := mul_nonpos_of_nonpos_of_nonneg (not_lt.mp hs) hk.le
  linarith [h.1]

/-- Stretching by a factor within the limit multiplies a bound by the limit at most. -/
theorem scaled_upto {L : Limits} {s : ℚ} (h : L.Factor s) {d b : Int} (hd : -b ≤ d ∧ d ≤ b) :
    -((b * L.stretch : Int) : ℚ) ≤ (d : ℚ) * s ∧ (d : ℚ) * s ≤ ((b * L.stretch : Int) : ℚ) := by
  have hpos := h.pos
  have hlo : -(b : ℚ) ≤ d := by exact_mod_cast hd.1
  have hhi : (d : ℚ) ≤ b := by exact_mod_cast hd.2
  have hb : (0 : ℚ) ≤ b := by linarith
  have hmul : (b : ℚ) * s ≤ b * L.stretch := mul_le_mul_of_nonneg_left h.2 hb
  push_cast
  constructor <;> nlinarith

/-- Shrinking by it as well: the factor's inverse is within the same limit. -/
theorem unscaled_upto {L : Limits} {s : ℚ} (h : L.Factor s) {d b : Int} (hd : -b ≤ d ∧ d ≤ b) :
    -((b * L.stretch : Int) : ℚ) ≤ (d : ℚ) / s ∧ (d : ℚ) / s ≤ ((b * L.stretch : Int) : ℚ) := by
  have hpos := h.pos
  have hlo : -(b : ℚ) ≤ d := by exact_mod_cast hd.1
  have hhi : (d : ℚ) ≤ b := by exact_mod_cast hd.2
  have hb : (0 : ℚ) ≤ b := by linarith
  have hone : (b : ℚ) ≤ b * (s * L.stretch) := le_mul_of_one_le_right hb h.1
  push_cast
  rw [le_div_iff₀ hpos, div_le_iff₀ hpos]
  constructor <;> nlinarith

/-- A cast of a value in range changes nothing. -/
theorem asI32_of_fits {v : Int} (h : I32 v) : asI32 v = v := by
  unfold I32 at h
  unfold asI32
  omega

namespace Frame

variable {L : Limits} {f : Frame}

/-- `to_desk` along one axis: each of its three sums fits, and the result is within the limit of the
desk. -/
theorem toDesk_axis {v base origin : Int} {s : ℚ} (hs : L.Factor s)
    (hv : -3000000 ≤ v ∧ v ≤ 3000000) (hbase : -1000000 ≤ base ∧ base ≤ 1000000)
    (horigin : -L.origin ≤ origin ∧ origin ≤ L.origin) :
    SumsFit [v - base, origin + base, origin + base + asI32 (roundHalfAway ((v - base : Int) * s))]
      ∧ (-L.desk ≤ origin + base + roundHalfAway ((v - base : Int) * s)
        ∧ origin + base + roundHalfAway ((v - base : Int) * s) ≤ L.desk) := by
  have hround := roundHalfAway_upto
    (scaled_upto hs (d := v - base) (b := 4000000) ⟨by omega, by omega⟩)
  have hbounds := L.bounds.1
  have ho := L.origin_nonneg
  have hk := L.stretch_pos
  generalize roundHalfAway ((v - base : Int) * s) = r at hround ⊢
  have hr : I32 r := by
    unfold I32
    unfold Limits.desk at hbounds
    omega
  rw [asI32_of_fits hr]
  simp only [fits_cons, fits_nil, and_true, I32]
  unfold Limits.desk at hbounds ⊢
  omega

/-- `to_desk` of a point within reach of the machine stays in range, and ends on the desk. -/
theorem toDesk_fits (h : f.Tame L) {p : Point} (hp : p.Upto 3000000) :
    SumsFit (f.toDeskSums p) ∧ (f.toDesk p).Upto L.desk := by
  obtain ⟨hfx, hx⟩ := toDesk_axis h.sx hp.1 h.base.1 h.origin.1
  obtain ⟨hfy, hy⟩ := toDesk_axis h.sy hp.2 h.base.2 h.origin.2
  exact ⟨(fits_append _ _).mpr ⟨hfx, hfy⟩, hx, hy⟩

/-- `to_local` along one axis, for a coordinate on the desk. -/
theorem toLocal_axis {d base origin : Int} {s : ℚ} (hs : L.Factor s)
    (hd : -L.desk ≤ d ∧ d ≤ L.desk) (hbase : -1000000 ≤ base ∧ base ≤ 1000000)
    (horigin : -L.origin ≤ origin ∧ origin ≤ L.origin) :
    SumsFit [d - origin, d - origin - base,
      base + asI32 ⌊((d - origin - base : Int) : ℚ) / s⌋] := by
  have hfloor := floor_upto (unscaled_upto hs (d := d - origin - base)
    (b := L.desk + L.origin + 1000000) ⟨by omega, by omega⟩)
  obtain ⟨hnear, hfar⟩ := L.bounds
  generalize ⌊((d - origin - base : Int) : ℚ) / s⌋ = q at hfloor ⊢
  have hq : I32 q := by
    unfold I32
    omega
  rw [asI32_of_fits hq]
  simp only [fits_cons, fits_nil, and_true, I32]
  omega

/-- `to_local` of a point on the desk stays in range. -/
theorem toLocal_fits (h : f.Tame L) {v : Point} (hv : v.Upto L.desk) :
    SumsFit (f.toLocalSums v) :=
  (fits_append _ _).mpr ⟨toLocal_axis h.sx hv.1 h.base.1 h.origin.1,
    toLocal_axis h.sy hv.2 h.base.2 h.origin.2⟩

/-- `desk_rect` takes both corners to the desk and subtracts them: all of it stays in range. -/
theorem deskRect_fits (h : f.Tame L) {m : Rect} (hm : m.Bounded) : SumsFit (f.deskRectSums m) := by
  have hb := hm
  unfold Rect.Bounded Rect.SaneExtent Point.Near at hb
  have htop : (⟨m.left, m.top⟩ : Point).Upto 3000000 := by
    unfold Point.Upto
    simp only [Rect.left, Rect.top] at hb ⊢
    omega
  have hend : (⟨m.right, m.bottom⟩ : Point).Upto 3000000 := by
    unfold Point.Upto
    simp only [Rect.right, Rect.bottom] at hb ⊢
    omega
  -- a side is the difference of two distances from the base
  have hside : ∀ {s : ℚ} (o a b c : Int), L.Factor s → (-4000000 ≤ a - c ∧ a - c ≤ 4000000) →
      (-4000000 ≤ b - c ∧ b - c ≤ 4000000) →
      I32 (o + c + roundHalfAway ((b - c : Int) * s)
        - (o + c + roundHalfAway ((a - c : Int) * s))) := by
    intro s o a b c hs ha hb
    have hra := roundHalfAway_upto (scaled_upto hs ha)
    have hrb := roundHalfAway_upto (scaled_upto hs hb)
    have hfits := L.fits
    have ho := L.origin_nonneg
    have hk := L.stretch_pos
    have hsmall : 8000000 * L.stretch ≤ 2147483647 := by nlinarith
    unfold I32
    omega
  have hfits := And.intro (toDesk_fits h htop).1 (toDesk_fits h hend).1
  have hbase := h.base
  unfold Point.Upto at hbase htop hend
  simp only at htop hend
  simp only [deskRectSums, fits_append, fits_cons, fits_nil, and_true]
  refine ⟨⟨⟨edgeSums_fits hm, hfits.1⟩, hfits.2⟩, ?_, ?_⟩
  · exact hside f.origin.x m.left m.right f.base.x h.sx (by omega) (by omega)
  · exact hside f.origin.y m.top m.bottom f.base.y h.sy (by omega) (by omega)

end Frame

/-! ## Origins

Each machine placed adds its width to how far the desk reaches, so the reach is bounded by their
number. -/

section Origins

variable {order : List String} {layout : Layout} {sizeOf : String → Int × Int}
  {local_ : String} {configured : Dict String Point} {P W : Int}

/-- How many listed screens have a place. -/
def placedCount (order : List String) (placed : Dict String Point) : Int :=
  order.length - order.countP fun n => (placed.get? n).isNone

/-- No more machines are placed than are listed. -/
theorem placedCount_le (order : List String) (placed : Dict String Point) :
    0 ≤ placedCount order placed ∧ placedCount order placed ≤ order.length := by
  have hle := List.countP_le_length (p := fun n => (placed.get? n).isNone) (l := order)
  unfold placedCount
  omega

/-- Placing a listed machine that was not placed yet raises the count, which is what pays for one
more width. -/
theorem placedCount_put {placed : Dict String Point} {b : String} (hb : b ∈ order)
    (hfree : ¬(placed.get? b).isSome = true) (o : Point) :
    placedCount order placed + 1 ≤ placedCount order (placed.put b o) := by
  have hlt := LinkWalk.countP_put_lt hb (by simpa using hfree) o
  unfold placedCount
  omega

/-- Every place is within the positions given and a size for each screen placed. -/
def PlacesUpto (order : List String) (P W : Int) (placed : Dict String Point) : Prop :=
  ∀ n o, placed.get? n = some o → o.Upto (P + placedCount order placed * W)

/-- One more machine placed: its origin may be further out by one width than those of before, and
the bound has grown by as much. -/
theorem PlacesUpto.put {placed : Dict String Point} {b : String} {o : Point}
    (h : PlacesUpto order P W placed) (hW : 0 ≤ W) (hb : b ∈ order)
    (hfree : ¬(placed.get? b).isSome = true)
    (ho : o.Upto (P + (placedCount order placed + 1) * W)) :
    PlacesUpto order P W (placed.put b o) := by
  have hmore := placedCount_put hb hfree o
  have hstep : (placedCount order placed + 1) * W ≤ placedCount order (placed.put b o) * W :=
    Int.mul_le_mul_of_nonneg_right hmore hW
  have hless : placedCount order placed * W ≤ (placedCount order placed + 1) * W :=
    Int.mul_le_mul_of_nonneg_right (by omega) hW
  intro n p hp
  rw [Dict.get?_put] at hp
  split at hp
  · cases hp
    unfold Point.Upto at ho ⊢
    omega
  · have hold := h n p hp
    unfold Point.Upto at hold ⊢
    omega

variable (hP : 0 ≤ P) (hW : 0 ≤ W)
  (hsize : ∀ n ∈ order, (0 ≤ (sizeOf n).1 ∧ (sizeOf n).1 ≤ W) ∧ 0 ≤ (sizeOf n).2 ∧ (sizeOf n).2 ≤ W)
include hW hsize

include hP in
/-- A visit of the walk places one machine at most, beside one that is placed. -/
theorem visit_reach {w : LinkWalk} {a : String} (ha : a ∈ order) (edge : Edge)
    (h : PlacesUpto order P W w.placed) :
    PlacesUpto order P W (LinkWalk.visit order layout sizeOf a w edge).placed := by
  unfold LinkWalk.visit
  cases layout.neighbor a edge with
  | none => exact h
  | some b =>
    dsimp only
    split
    · exact h
    · next hnew =>
      have hb := listed_of_not_skipped hnew
      have hfree : ¬(w.placed.get? b).isSome = true := fun hb => hnew (by rw [hb]; rfl)
      refine h.put hW hb hfree ?_
      have hcount := placedCount_le order w.placed
      have hroom : 0 ≤ placedCount order w.placed * W := Int.mul_nonneg hcount.1 hW
      have hoa : ((w.placed.get? a).getD ⟨0, 0⟩).Upto (P + placedCount order w.placed * W) := by
        cases hget : w.placed.get? a with
        | none =>
          unfold Point.Upto
          simp only [Option.getD_none]
          omega
        | some o => exact h a o hget
      have hsa := hsize a ha
      have hsb := hsize b hb
      rw [Int.add_mul, Int.one_mul]
      unfold Point.Upto at hoa ⊢
      cases edge <;> simp only [besideOrigin] <;> omega

include hP in
/-- **The walk along the links keeps to the bound**: each machine adds one width at most. -/
theorem walked_reach (hconfigured : ∀ n o, configured.get? n = some o → o.Upto P) :
    PlacesUpto order P W (LinkWalk.walked order layout sizeOf local_ configured).placed := by
  -- before the first visit: what is configured, and the local machine in the corner
  have hstart : PlacesUpto order P W (LinkWalk.start order local_ configured).placed := by
    intro n o ho
    have hcount := placedCount_le order (LinkWalk.start order local_ configured).placed
    have hroom : 0 ≤ placedCount order (LinkWalk.start order local_ configured).placed * W :=
      Int.mul_nonneg hcount.1 hW
    have hupto : o.Upto P := by
      have hzero : (⟨0, 0⟩ : Point).Upto P := by
        unfold Point.Upto
        simp only
        omega
      have hlisted : ∀ o, ((configured.entries.filter fun e => order.contains e.1).foldl
          (fun (m : Dict String Point) e => m.put e.1 e.2) ∅).get? n = some o → o.Upto P := by
        intro o ho
        rw [get?_configured] at ho
        split at ho
        · exact hconfigured n o ho
        · cases ho
      simp only [LinkWalk.start] at ho
      split at ho
      · exact hlisted o ho
      · rw [Dict.get?_put] at ho
        split at ho
        · cases ho
          exact hzero
        · exact hlisted o ho
    unfold Point.Upto at hupto ⊢
    omega
  -- four edges from one machine
  have hvisits : ∀ (edges : List Edge) (w : LinkWalk) (a : String), a ∈ order →
      PlacesUpto order P W w.placed →
      PlacesUpto order P W (edges.foldl (LinkWalk.visit order layout sizeOf a) w).placed := by
    intro edges
    induction edges with
    | nil => exact fun _ _ _ h => h
    | cons edge edges ih =>
      exact fun w a ha h => ih _ a ha (visit_reach hP hW hsize ha edge h)
  -- a machine from the queue, which is one of the listed
  have hpass : ∀ w : LinkWalk, LinkWalk.Recorded order layout sizeOf
      (LinkWalk.start order local_ configured).placed w → PlacesUpto order P W w.placed →
      PlacesUpto order P W (LinkWalk.pass order layout sizeOf w).placed := by
    intro w hrec h
    unfold LinkWalk.pass
    cases hq : w.queue with
    | nil => exact h
    | cons a queue =>
      exact hvisits Edge.all { w with queue } a
        (hrec.queued a (by rw [hq]; exact List.mem_cons_self)).1 h
  -- and as often as the loop runs
  have hpasses : ∀ fuel : Nat, PlacesUpto order P W
      ((LinkWalk.pass order layout sizeOf)^[fuel] (LinkWalk.start order local_ configured)).placed
      ∧ LinkWalk.Recorded order layout sizeOf (LinkWalk.start order local_ configured).placed
        ((LinkWalk.pass order layout sizeOf)^[fuel] (LinkWalk.start order local_ configured)) := by
    intro fuel
    induction fuel with
    | zero => exact ⟨hstart, LinkWalk.start_recorded order layout sizeOf local_ configured⟩
    | succ fuel ih =>
      rw [Function.iterate_succ_apply']
      exact ⟨hpass _ ih.2 ih.1, LinkWalk.pass_recorded ih.2⟩
  exact (hpasses order.length).1

/-- With the row's end no further than one more size, the row stays within one more. -/
theorem row_reach {acc : Dict String Point × Int} (names : List String)
    (hnames : ∀ n ∈ names, n ∈ order) (h : PlacesUpto order (P + W) W acc.1)
    (hright : -(P + W + placedCount order acc.1 * W) ≤ acc.2
      ∧ acc.2 ≤ P + W + placedCount order acc.1 * W) :
    PlacesUpto order (P + W) W (names.foldl (rowStep sizeOf) acc).1 := by
  induction names generalizing acc with
  | nil => exact h
  | cons name names ih =>
    have hname := hnames name List.mem_cons_self
    have hrest : ∀ n ∈ names, n ∈ order := fun n hn => hnames n (List.mem_cons_of_mem _ hn)
    rw [List.foldl_cons]
    unfold rowStep
    split
    · exact ih hrest h hright
    · next hfree =>
      have hmore := placedCount_put hname hfree ⟨acc.2, 0⟩
      have hstep : (placedCount order acc.1 + 1) * W
          ≤ placedCount order (acc.1.put name ⟨acc.2, 0⟩) * W :=
        Int.mul_le_mul_of_nonneg_right hmore hW
      have hcount := placedCount_le order acc.1
      have hroom : 0 ≤ placedCount order acc.1 * W := Int.mul_nonneg hcount.1 hW
      rw [Int.add_mul, Int.one_mul] at hstep
      have hs := hsize name hname
      refine ih hrest (h.put hW hname hfree ?_) ?_
      · rw [Int.add_mul, Int.one_mul]
        unfold Point.Upto
        simp only
        omega
      · simp only
        omega

include hP in
/-- Priming of one kind leaves a copy of the other kind due, and one of its own kind is not due any
more. -/
theorem rightEnd_reach {placed : Dict String Point} (h : PlacesUpto order P W placed) :
    -(P + W + placedCount order placed * W) ≤ LinkWalk.rightEnd order sizeOf placed
      ∧ LinkWalk.rightEnd order sizeOf placed ≤ P + W + placedCount order placed * W := by
  have hcount := placedCount_le order placed
  have hroom : 0 ≤ placedCount order placed * W := Int.mul_nonneg hcount.1 hW
  unfold LinkWalk.rightEnd
  cases hmax : (order.filterMap fun n => (placed.get? n).map fun o => o.x + (sizeOf n).1).max? with
  | none =>
    rw [Option.getD_none]
    omega
  | some top =>
    obtain ⟨n, hn, htop⟩ := List.mem_filterMap.mp (List.max?_mem hmax)
    obtain ⟨o, ho, rfl⟩ := Option.map_eq_some_iff.mp htop
    have hupto := h n o ho
    have hs := hsize n hn
    unfold Point.Upto at hupto
    rw [Option.getD_some]
    omega

include hP in
/-- The row of the machines left over: each one begins where the one before it ends. -/
theorem placeRow_reach {placed : Dict String Point} (h : PlacesUpto order P W placed) :
    PlacesUpto order (P + W) W
      (placeRow order sizeOf placed (LinkWalk.rightEnd order sizeOf placed)) := by
  have hright := rightEnd_reach hP hW hsize h
  generalize LinkWalk.rightEnd order sizeOf placed = right at hright ⊢
  rw [placeRow_eq]
  refine row_reach hW hsize order (fun _ hn => hn) (fun n o ho => ?_) hright
  have hold := h n o ho
  unfold Point.Upto at hold ⊢
  dsimp only
  omega

include hP in
/-- Origins are within the positions given and a size for each listed screen and one more. -/
theorem origins_reach (hconfigured : ∀ n o, configured.get? n = some o → o.Upto P) {n : String}
    {o : Point} (ho : (effectiveOrigins order layout sizeOf local_ configured).get? n = some o) :
    o.Upto (P + (order.length + 1) * W) := by
  rw [LinkWalk.effectiveOrigins_eq] at ho
  have hwalk : PlacesUpto order P W
      (LinkWalk.walked order layout sizeOf local_ configured).placed :=
    walked_reach hP hW hsize hconfigured
  have hrow := placeRow_reach hP hW hsize hwalk
  generalize (LinkWalk.walked order layout sizeOf local_ configured).placed = walked at hrow ho
  generalize placeRow order sizeOf walked (LinkWalk.rightEnd order sizeOf walked) = placed
    at hrow ho
  have hupto := hrow n o ho
  have hmul := Int.mul_le_mul_of_nonneg_right (placedCount_le order placed).2 hW
  rw [Int.add_mul, Int.one_mul]
  unfold Point.Upto at hupto ⊢
  omega

include hP in
/-- **`effective_origins` stays in range** when the positions and the widths of all machines
together do. -/
theorem effectiveOrigins_fits (hconfigured : ∀ n o, configured.get? n = some o → o.Upto P)
    (hroom : P + (order.length + 2) * W ≤ 2147483647) :
    SumsFit (effectiveOriginsSums order layout sizeOf local_ configured) := by
  rw [effectiveOriginsSums, fits_flatMap]
  intro n hn
  cases ho : (effectiveOrigins order layout sizeOf local_ configured).get? n with
  | none => exact fits_nil
  | some o =>
    have hupto := origins_reach hP hW hsize hconfigured ho
    have hs := hsize n hn
    have hsplit : ((order.length : Int) + 2) * W = (order.length + 1) * W + W := by ring
    rw [hsplit] at hroom
    unfold Point.Upto at hupto
    simp only [Option.elim_some, fits_cons, fits_nil, and_true, I32]
    omega

end Origins

end GeserDesk
