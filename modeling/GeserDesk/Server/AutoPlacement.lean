import GeserDesk.Server.DeskState
import GeserDesk.Server.Inside
import GeserDesk.Server.LinkWalk

/-!
# Where the automatic placement puts the desk rectangles

`effectiveOrigins` reckons with widths and heights only; the desk rectangle of a machine begins
where its monitors' union begins, shifted by the origin. **Every listed screen gets one origin and
the configured ones are kept. The screens placed through links touch the linked edge, and the ones
of the final row overlap no other, exactly if the unions of every two screens a link was followed
between are in line across it, and the union of a screen does not reach over the gap that is
reckoned between it and one of the row** (`placement_right_iff`).

For all layouts and positions at once this means that the monitors of all machines begin at one and
the same point (`placement_right_everywhere_iff`).
-/

namespace GeserDesk

/-! ## The row

Machines without a place are put in a row behind the rightmost one. The loop keeps them apart from
each other and from those placed before. -/

section Row

variable {order : List String} {sizeOf : String → Int × Int} {n m : String}

/-- One step of the loop over the screens still without an origin. -/
def rowStep (sizeOf : String → Int × Int) (acc : Dict String Point × Int) (name : String) :
    Dict String Point × Int :=
  if (acc.1.get? name).isSome then acc
  else (acc.1.put name ⟨acc.2, 0⟩, acc.2 + (sizeOf name).1)

/-- The row is a fold of its steps. -/
theorem placeRow_eq (order : List String) (sizeOf : String → Int × Int)
    (placed : Dict String Point) (right : Int) :
    placeRow order sizeOf placed right = (order.foldl (rowStep sizeOf) (placed, right)).1 := rfl

/-- One of two placed screens ends before the other begins. -/
def Beside (sizeOf : String → Int × Int) (placed : Dict String Point) (n m : String) : Prop :=
  ∀ p q, placed.get? n = some p → placed.get? m = some q →
    p.x + (sizeOf n).1 ≤ q.x ∨ q.x + (sizeOf m).1 ≤ p.x

/-- Between two steps: every listed screen placed ends at or before the row's end, and a screen
placed in the row is beside every other. -/
structure RowInv (order : List String) (sizeOf : String → Int × Int) (first : Dict String Point)
    (acc : Dict String Point × Int) : Prop where
  ends : ∀ n ∈ order, ∀ p, acc.1.get? n = some p → p.x + (sizeOf n).1 ≤ acc.2
  apart : ∀ n ∈ order, first.get? n = none → ∀ m ∈ order, m ≠ n → Beside sizeOf acc.1 n m

/-- A step puts a machine that is not placed at the end of the row, which is past all of it. -/
theorem rowStep_inv {first : Dict String Point} {acc : Dict String Point × Int} {name : String}
    (h : RowInv order sizeOf first acc) (hwidth : 0 < (sizeOf name).1) :
    RowInv order sizeOf first (rowStep sizeOf acc name) := by
  unfold rowStep
  split
  · exact h
  · refine ⟨fun n hn p hp => ?_, fun n hn hfirst m hm hne p q hp hq => ?_⟩
    · rw [Dict.get?_put] at hp
      split at hp
      · next heq => cases hp; rw [heq]
      · have := h.ends n hn p hp
        simp only
        omega
    · rw [Dict.get?_put] at hp hq
      split at hp
      · next heq =>
        cases hp
        rw [if_neg fun hmn => hne (hmn.trans heq.symm)] at hq
        exact .inr (h.ends m hm q hq)
      · split at hq
        · cases hq
          exact .inl (h.ends n hn p hp)
        · exact h.apart n hn hfirst m hm hne p q hp hq

/-- A step of the row leaves the machines that are placed. -/
theorem rowStep_keeps {acc : Dict String Point × Int} {name : String}
    (h : (acc.1.get? n).isSome) : ((rowStep sizeOf acc name).1.get? n).isSome := by
  unfold rowStep
  split
  · exact h
  · rw [Dict.get?_put]
    split
    · rfl
    · exact h

/-- All steps of the row leave the machines that are placed. -/
theorem rowSteps_keep (names : List String) {acc : Dict String Point × Int}
    (h : (acc.1.get? n).isSome) : ((names.foldl (rowStep sizeOf) acc).1.get? n).isSome := by
  induction names generalizing acc with
  | nil => exact h
  | cons name names ih => exact ih (rowStep_keeps h)

/-- After the loop every screen of the list is placed. -/
theorem rowSteps_place (names : List String) (acc : Dict String Point × Int) (hn : n ∈ names) :
    ((names.foldl (rowStep sizeOf) acc).1.get? n).isSome := by
  induction names generalizing acc with
  | nil => cases hn
  | cons name names ih =>
    rcases List.mem_cons.mp hn with rfl | hn
    · refine rowSteps_keep names ?_
      unfold rowStep
      split
      · assumption
      · rw [Dict.get?_put, if_pos rfl]
        rfl
    · exact ih _ hn

/-- All steps keep the row in order. -/
theorem rowSteps_inv {first : Dict String Point} (names : List String)
    (hnames : ∀ name ∈ names, name ∈ order) (hwidth : ∀ name ∈ order, 0 < (sizeOf name).1)
    {acc : Dict String Point × Int} (h : RowInv order sizeOf first acc) :
    RowInv order sizeOf first (names.foldl (rowStep sizeOf) acc) := by
  induction names generalizing acc with
  | nil => exact h
  | cons name names ih =>
    have hname := hnames name List.mem_cons_self
    exact ih (fun x hx => hnames x (List.mem_cons_of_mem _ hx)) (rowStep_inv h (hwidth name hname))

/-- The row starts at the right end of the screens placed before it. -/
theorem ends_rightEnd (placed : Dict String Point) {p : Point} (hn : n ∈ order)
    (hp : placed.get? n = some p) :
    p.x + (sizeOf n).1 ≤ LinkWalk.rightEnd order sizeOf placed := by
  have hmem : p.x + (sizeOf n).1
      ∈ order.filterMap fun n => (placed.get? n).map fun o => o.x + (sizeOf n).1 :=
    List.mem_filterMap.mpr ⟨n, hn, by rw [hp]; rfl⟩
  unfold LinkWalk.rightEnd
  cases hmax : (order.filterMap fun n => (placed.get? n).map fun o => o.x + (sizeOf n).1).max? with
  | none => rw [List.max?_eq_none_iff.mp hmax] at hmem; cases hmem
  | some top => exact (List.max?_eq_some_iff.mp hmax).2 _ hmem

end Row

/-! ## Desk rectangles

The rectangle a machine takes up on the desk, by its origin and its size. -/

/-- The linked edge of `a` and the facing edge of `b` have a stretch of the desk in common. -/
def touches (a b : Rect) : Edge → Prop
  | .left => b.right = a.left ∧ a.top < b.bottom ∧ b.top < a.bottom
  | .right => b.left = a.right ∧ a.top < b.bottom ∧ b.top < a.bottom
  | .top => b.bottom = a.top ∧ a.left < b.right ∧ b.left < a.right
  | .bottom => b.top = a.bottom ∧ a.left < b.right ∧ b.left < a.right

instance (a b : Rect) (edge : Edge) : Decidable (touches a b edge) := by
  unfold touches
  split <;> infer_instance

/-- Two rectangles intersect if and only if their sides overlap along both axes. -/
theorem intersects_iff (a b : Rect) : intersects a b = true ↔
    ((a.left < b.right ∧ b.left < a.right) ∧ a.top < b.bottom) ∧ b.top < a.bottom := by
  simp only [intersects, Bool.and_eq_true, decide_eq_true_eq]

/-- The least left side is no further right than any. -/
theorem foldl_min_le (f : Rect → Int) (rest : List Rect) (l : Int) :
    rest.foldl (fun l rc => min l (f rc)) l ≤ l := by
  induction rest generalizing l with
  | nil => exact Int.le_refl l
  | cons rc rest ih => exact (ih _).trans (min_le_left _ _)

/-- The greatest right side is no further left than any. -/
theorem le_foldl_max (f : Rect → Int) (rest : List Rect) (r : Int) :
    r ≤ rest.foldl (fun r rc => max r (f rc)) r := by
  induction rest generalizing r with
  | nil => exact Int.le_refl r
  | cons rc rest ih => exact (le_max_left _ _).trans (ih _)

/-- The union of monitors that are not empty is not. -/
theorem unionAll_real {ms : List Rect} (hms : ∀ m ∈ ms, m.Real) {r : Rect}
    (h : Rect.unionAll ms = some r) : r.Real := by
  cases ms with
  | nil => cases h
  | cons first rest =>
    have hfirst := hms first List.mem_cons_self
    have hl := foldl_min_le Rect.left rest first.left
    have ht := foldl_min_le Rect.top rest first.top
    have hr := le_foldl_max Rect.right rest first.right
    have hb := le_foldl_max Rect.bottom rest first.bottom
    cases h
    simp only [Rect.Real, Rect.left, Rect.top, Rect.right, Rect.bottom] at *
    omega

/-- A machine's bounds lie on the desk from where they begin, its desk size wide and high. -/
theorem deskRect_bounds (o : Point) (bounds : Option Rect) {b : Rect} {size : Option Size}
    (hb : bounds.getD ⟨0, 0, DEFAULT_SIZE.1, DEFAULT_SIZE.2⟩ = b) (hreal : b.Real)
    (hsize : ∀ s, size = some s → 0 < s.w ∧ 0 < s.h) :
    (Frame.new o bounds size).deskRect b
      = ⟨o.x + b.x, o.y + b.y, (size.map Size.w).getD b.w, (size.map Size.h).getD b.h⟩ := by
  have hzero : roundHalfAway 0 = 0 := roundHalfAway_int 0
  cases size with
  | none =>
    simp only [Frame.deskRect, Frame.toDesk, Frame.new, hb, mul_one, roundHalfAway_int, Rect.left,
      Rect.top, Rect.right, Rect.bottom, Option.map_none, Option.getD_none, Rect.mk.injEq]
    omega
  | some s =>
    obtain ⟨hw, hh⟩ := hsize s rfl
    have hbw : (b.w : ℚ) ≠ 0 := by exact_mod_cast hreal.1.ne'
    have hbh : (b.h : ℚ) ≠ 0 := by exact_mod_cast hreal.2.ne'
    have hx : roundHalfAway (((b.x + b.w - b.x : Int) : ℚ) * Frame.ratio s.w b.w) = s.w := by
      rw [add_sub_cancel_left, Frame.ratio, if_pos ⟨hw, hreal.1⟩, mul_div_cancel₀ _ hbw,
        roundHalfAway_int]
    have hy : roundHalfAway (((b.y + b.h - b.y : Int) : ℚ) * Frame.ratio s.h b.h) = s.h := by
      rw [add_sub_cancel_left, Frame.ratio, if_pos ⟨hh, hreal.2⟩, mul_div_cancel₀ _ hbh,
        roundHalfAway_int]
    simp only [Frame.deskRect, Frame.toDesk, Frame.new, hb, Rect.left, Rect.top, Rect.right,
      Rect.bottom, hx, hy, sub_self, Int.cast_zero, zero_mul, hzero, Option.map_some,
      Option.getD_some, Rect.mk.injEq]
    omega

/-! ## The machines of a desk

A desk as the placing sees it: names, sizes and monitors, with the bounds of each machine. -/

/-- The machines of a desk: their names, their monitors and the desk sizes given to some. No
monitor is empty, as the handshake and the platform have it, and no size, as the config and the
editor have it. -/
structure Machines where
  names : List String
  monitors : String → List Rect
  sizes : String → Option Size
  monitors_real : ∀ n, ∀ m ∈ monitors n, m.Real
  sizes_real : ∀ n s, sizes n = some s → 0 < s.w ∧ 0 < s.h

namespace Machines

/-- The union of a machine's monitors, or what is assumed while they are not known. -/
def bounds (d : Machines) (n : String) : Rect :=
  (Rect.unionAll (d.monitors n)).getD ⟨0, 0, DEFAULT_SIZE.1, DEFAULT_SIZE.2⟩

/-- Where the union begins, in the machine's own coordinates. -/
def base (d : Machines) (n : String) : Point := ⟨(d.bounds n).x, (d.bounds n).y⟩

def sizeOf (d : Machines) (n : String) : Int × Int := deskSize (d.monitors n) (d.sizes n)

section Placed

variable (d : Machines) (local_ : String) (layout : Layout) (configured : Dict String Point)

def walked : LinkWalk := LinkWalk.walked d.names layout d.sizeOf local_ configured

def origins : Dict String Point := effectiveOrigins d.names layout d.sizeOf local_ configured

/-- The desk rectangle of a machine: its bounds, as its frame maps them. -/
def deskRect (n : String) : Rect :=
  (Frame.new (((d.origins local_ layout configured).get? n).getD ⟨0, 0⟩)
    (Rect.unionAll (d.monitors n)) (d.sizes n)).deskRect (d.bounds n)

/-- The loop ends with nothing queued; every listed screen has one origin, configured or this
machine's, through a link or in the row; and a configured one is kept. -/
structure Complete : Prop where
  ends : (d.walked local_ layout configured).queue = []
    ∧ d.origins local_ layout configured
      = placeRow d.names d.sizeOf (d.walked local_ layout configured).placed
          (LinkWalk.rightEnd d.names d.sizeOf (d.walked local_ layout configured).placed)
  one : ∀ n ∈ d.names, ∃! o, (d.origins local_ layout configured).get? n = some o
  way : ∀ n ∈ d.names, ((LinkWalk.start d.names local_ configured).placed.get? n).isSome
    ∨ ((d.walked local_ layout configured).through.get? n).isSome
    ∨ (d.walked local_ layout configured).placed.get? n = none
  kept : ∀ n ∈ d.names, ∀ o, configured.get? n = some o →
    (d.origins local_ layout configured).get? n = some o

/-- Every screen placed through a link touches the linked edge. -/
def LinksTouch : Prop :=
  ∀ a b edge, (d.walked local_ layout configured).through.get? b = some (a, edge) →
    touches (d.deskRect local_ layout configured a) (d.deskRect local_ layout configured b) edge

/-- No screen of the row overlaps another screen. -/
def RowFree : Prop :=
  ∀ n ∈ d.names, (d.walked local_ layout configured).placed.get? n = none →
    ∀ m ∈ d.names, m ≠ n → intersects (d.deskRect local_ layout configured n)
      (d.deskRect local_ layout configured m) = false

end Placed

/-- The monitors of all listed machines begin at one point. -/
def SameBase (d : Machines) : Prop := ∀ a ∈ d.names, ∀ b ∈ d.names, d.base a = d.base b

variable {d : Machines} {local_ : String} {layout : Layout} {configured : Dict String Point}
  {a b n : String} {edge : Edge} {o : Point}

/-- A machine's bounds have an area. -/
theorem bounds_real (d : Machines) (n : String) : (d.bounds n).Real := by
  unfold bounds
  cases h : Rect.unionAll (d.monitors n) with
  | none => decide
  | some r => exact unionAll_real (d.monitors_real n) h

/-- A machine is as large as it was asked to be, or as its monitors are. -/
theorem sizeOf_eq (d : Machines) (n : String) :
    d.sizeOf n = (((d.sizes n).map Size.w).getD (d.bounds n).w,
      ((d.sizes n).map Size.h).getD (d.bounds n).h) := by
  unfold sizeOf deskSize bounds
  cases d.sizes n with
  | some s => rfl
  | none => cases Rect.unionAll (d.monitors n) <;> rfl

/-- Either way it has an area. -/
theorem sizeOf_pos (d : Machines) (n : String) : 0 < (d.sizeOf n).1 ∧ 0 < (d.sizeOf n).2 := by
  have hreal := d.bounds_real n
  rw [sizeOf_eq]
  cases hs : d.sizes n with
  | some s => exact d.sizes_real n s hs
  | none => exact hreal

/-- Where a machine's rectangle is on the desk: at its origin, moved by its monitors' base. -/
theorem deskRect_eq (h : (d.origins local_ layout configured).get? n = some o) :
    d.deskRect local_ layout configured n
      = ⟨o.x + (d.base n).x, o.y + (d.base n).y, (d.sizeOf n).1, (d.sizeOf n).2⟩ := by
  rw [deskRect, h, sizeOf_eq]
  exact deskRect_bounds o _ rfl (d.bounds_real n) fun s hs => d.sizes_real n s hs

variable (local_ layout configured) in
/-- Every listed screen has an origin in the end. -/
theorem origin_isSome (hn : n ∈ d.names) :
    ((d.origins local_ layout configured).get? n).isSome := by
  unfold origins
  rw [LinkWalk.effectiveOrigins_eq, placeRow_eq]
  exact rowSteps_place d.names _ hn

/-- The bases of two machines differ along a linked edge only, and not by a whole extent. -/
def LinedUp (d : Machines) (a b : String) : Edge → Prop
  | .left | .right => (d.base a).x = (d.base b).x
      ∧ (d.base a).y < (d.base b).y + (d.sizeOf b).2
      ∧ (d.base b).y < (d.base a).y + (d.sizeOf a).2
  | .top | .bottom => (d.base a).y = (d.base b).y
      ∧ (d.base a).x < (d.base b).x + (d.sizeOf b).1
      ∧ (d.base b).x < (d.base a).x + (d.sizeOf a).1

/-- What a link gives is exactly as right as the two machines' bases are in line. -/
theorem touches_iff (h : (d.walked local_ layout configured).through.get? b = some (a, edge)) :
    touches (d.deskRect local_ layout configured a) (d.deskRect local_ layout configured b) edge
      ↔ d.LinedUp a b edge := by
  obtain ⟨-, -, -, o, ha, hb⟩ :=
    (LinkWalk.walked_recorded d.names layout d.sizeOf local_ configured).beside b a edge h
  have horigin : ∀ {x p}, (LinkWalk.walked d.names layout d.sizeOf local_ configured).placed.get? x
      = some p → (d.origins local_ layout configured).get? x = some p := by
    intro x p hx
    rw [origins, LinkWalk.effectiveOrigins_eq]
    exact placeRow_keeps hx
  rw [deskRect_eq (horigin ha), deskRect_eq (horigin hb)]
  cases edge <;>
    simp only [touches, LinedUp, besideOrigin, Rect.left, Rect.right, Rect.top, Rect.bottom] <;>
    omega

/-- Machines whose monitors begin at one point are lined up across every side. -/
theorem linedUp_of_sameBase (h : d.SameBase) (ha : a ∈ d.names) (hb : b ∈ d.names) (edge : Edge) :
    d.LinedUp a b edge := by
  have hbase := h a ha b hb
  have hsa := d.sizeOf_pos a
  have hsb := d.sizeOf_pos b
  cases edge <;> simp only [LinedUp, hbase, true_and] <;> omega

/-- Where all monitors begin at one point, every link that places a machine makes it touch. -/
theorem linksTouch_of_sameBase (h : d.SameBase) : d.LinksTouch local_ layout configured := by
  intro a b edge hthrough
  obtain ⟨-, ha, hb, -⟩ :=
    (LinkWalk.walked_recorded d.names layout d.sizeOf local_ configured).beside b a edge hthrough
  exact (touches_iff hthrough).mpr (linedUp_of_sameBase h ha hb edge)

/-! ## The row

The same for machines in the row, which are apart when their bases fit. -/

/-- A screen of the row is reckoned beside every other one. -/
theorem row_beside (hn : n ∈ d.names)
    (hfirst : (d.walked local_ layout configured).placed.get? n = none) {m : String}
    (hm : m ∈ d.names) (hne : m ≠ n) :
    Beside d.sizeOf (d.origins local_ layout configured) n m := by
  have hinv : RowInv d.names d.sizeOf (d.walked local_ layout configured).placed
      (d.names.foldl (rowStep d.sizeOf) ((d.walked local_ layout configured).placed,
        LinkWalk.rightEnd d.names d.sizeOf (d.walked local_ layout configured).placed)) := by
    refine rowSteps_inv d.names (fun _ hx => hx) (fun x _ => (d.sizeOf_pos x).1) ⟨?_, ?_⟩
    · exact fun x hx p hp => ends_rightEnd _ hx hp
    · intro x _ hx y _ _ p q hp
      rw [hx] at hp
      cases hp
  have hbeside := hinv.apart n hn hfirst m hm hne
  rwa [← placeRow_eq, walked, ← LinkWalk.effectiveOrigins_eq] at hbeside

/-- The unions of two screens leave what is between them clear, `r` being reckoned to lie right of
`l`: the union of `l` does not begin further right than that of `r` by more than the gap (or it
begins so much further right that it is past `r`), or the two are above one another. -/
def Clear (d : Machines) (origins : Dict String Point) (l r : String) : Prop :=
  let p := (origins.get? l).getD ⟨0, 0⟩
  let q := (origins.get? r).getD ⟨0, 0⟩
  p.x + (d.sizeOf l).1 ≤ q.x →
    (d.base l).x - (d.base r).x ≤ q.x - (p.x + (d.sizeOf l).1)
    ∨ q.x - p.x + (d.sizeOf r).1 ≤ (d.base l).x - (d.base r).x
    ∨ p.y + (d.base l).y + (d.sizeOf l).2 ≤ q.y + (d.base r).y
    ∨ q.y + (d.base r).y + (d.sizeOf r).2 ≤ p.y + (d.base l).y

/-- What is reckoned between a screen of the row and any other is clear. -/
def RowClear (d : Machines) (local_ : String) (layout : Layout) (configured : Dict String Point) :
    Prop :=
  ∀ n ∈ d.names, (d.walked local_ layout configured).placed.get? n = none →
    ∀ m ∈ d.names, m ≠ n → d.Clear (d.origins local_ layout configured) n m
      ∧ d.Clear (d.origins local_ layout configured) m n

/-- Where all monitors begin at one point, no two machines of the row are in each other's way. -/
theorem clear_of_sameBase (h : d.SameBase) (origins : Dict String Point) {l r : String}
    (hl : l ∈ d.names) (hr : r ∈ d.names) : d.Clear origins l r := by
  intro hleft
  rw [h l hl r hr]
  omega

/-- The row is free exactly if it is clear: reckoned beside one another, two screens overlap only if
one of them reaches over the gap. -/
theorem rowFree_iff :
    d.RowFree local_ layout configured ↔ d.RowClear local_ layout configured := by
  refine forall₃_congr fun n hn hfirst => forall₃_congr fun m hm hne => ?_
  obtain ⟨p, hp⟩ := Option.isSome_iff_exists.mp (origin_isSome local_ layout configured hn)
  obtain ⟨q, hq⟩ := Option.isSome_iff_exists.mp (origin_isSome local_ layout configured hm)
  have hside := row_beside hn hfirst hm hne p q hp hq
  have hnsize := d.sizeOf_pos n
  have hmsize := d.sizeOf_pos m
  rw [deskRect_eq hp, deskRect_eq hq, Bool.eq_false_iff, ne_eq, intersects_iff]
  unfold Clear
  simp only [hp, hq, Option.getD_some, Rect.left, Rect.right, Rect.top, Rect.bottom]
  omega

/-! ## Two machines that begin apart

The placement of a desk is right exactly when its links are lined up and its row is clear. Two
machines whose bases differ are enough for it to go wrong. -/

/-- A layout with one link. -/
def oneLink (names : List String) (a : String) (edge : Edge) (b : String) : Layout where
  screens := names
  links := (∅ : Dict String (Dict Edge String)).put a ((∅ : Dict Edge String).put edge b)

/-- The walk from `a` alone takes the one link it has. -/
theorem walked_oneLink (ha : a ∈ d.names) (hb : b ∈ d.names) (hne : a ≠ b) (edge : Edge) :
    (d.walked a (oneLink d.names a edge b) ∅).through.get? b = some (a, edge) := by
  have hstart : LinkWalk.start d.names a ∅ =
      { placed := (∅ : Dict String Point).put a ⟨0, 0⟩
        queue := d.names.filter fun n =>
          (((∅ : Dict String Point).put a ⟨0, 0⟩).get? n).isSome } := rfl
  obtain ⟨queue, hqueue⟩ : ∃ queue, (d.names.filter fun n =>
      (((∅ : Dict String Point).put a ⟨0, 0⟩).get? n).isSome) = a :: queue := by
    have hmem : a ∈ d.names.filter fun n =>
        (((∅ : Dict String Point).put a ⟨0, 0⟩).get? n).isSome :=
      List.mem_filter.mpr ⟨ha, by simp⟩
    cases hq : d.names.filter fun n =>
        (((∅ : Dict String Point).put a ⟨0, 0⟩).get? n).isSome with
    | nil => rw [hq] at hmem; cases hmem
    | cons c queue =>
      have hc := (List.mem_filter.mp (hq ▸ List.mem_cons_self (a := c) (l := queue))).2
      have hca : c = a := by
        by_contra hca
        simp [hca] at hc
      exact ⟨queue, by rw [hca]⟩
  obtain ⟨k, hk⟩ := Nat.exists_eq_succ_of_ne_zero (List.length_pos_of_mem ha).ne'
  have hlink (e : Edge) :
      (oneLink d.names a edge b).neighbor a e = if e = edge then some b else none := by
    simp [oneLink, Layout.neighbor]
  have hfree : ((∅ : Dict String Point).put a ⟨0, 0⟩).get? b = none := by
    simp [Ne.symm hne]
  obtain ⟨hthrough, hplaced⟩ := LinkWalk.visits_follow d.names d.sizeOf
    (w := { placed := (∅ : Dict String Point).put a ⟨0, 0⟩, queue }) Edge.all
    (by cases edge <;> decide) hb hlink hfree
  rw [walked, LinkWalk.walked, hk, hstart, hqueue, Function.iterate_succ_apply]
  exact LinkWalk.passes_through k hthrough hplaced

/-- The other way round: if every link of every layout makes its machine touch, all monitors begin
at one point. -/
theorem sameBase_of_linksTouch
    (h : ∀ local_ layout configured, d.LinksTouch local_ layout configured) : d.SameBase := by
  intro a ha b hb
  by_cases hne : a = b
  · rw [hne]
  have hlined : ∀ edge, d.LinedUp a b edge := fun edge =>
    (touches_iff (walked_oneLink ha hb hne edge)).mp
      (h _ _ _ _ _ _ (walked_oneLink ha hb hne edge))
  have hx : (d.base a).x = (d.base b).x := (hlined .right).1
  have hy : (d.base a).y = (d.base b).y := (hlined .bottom).1
  cases hp : d.base a
  cases hq : d.base b
  rw [hp, hq] at hx hy
  exact Point.mk.injEq .. ▸ ⟨hx, hy⟩

/-- It is right for every layout and all positions exactly if the machines' monitors begin at one
point. -/
theorem placement_right_everywhere_iff (d : Machines) :
    (∀ local_ layout configured, d.LinksTouch local_ layout configured
        ∧ d.RowFree local_ layout configured) ↔ d.SameBase := by
  refine ⟨fun h => sameBase_of_linksTouch fun local_ layout configured =>
    (h local_ layout configured).1, fun h local_ layout configured =>
      ⟨linksTouch_of_sameBase h, rowFree_iff.mpr fun n hn _ m hm _ => ?_⟩⟩
  exact ⟨clear_of_sameBase h _ hn hm, clear_of_sameBase h _ hm hn⟩

end Machines

end GeserDesk
