import GeserDesk.App.Geometry

/-!
# Dragging a side of a machine

What `resized` of `geometry.ts` does to the box of a machine on the desk. The scan over the edges
keeps its state in the coordinate it moves: an edge that lies exactly there makes it forget what it
has seen, so it goes on to an edge that comes after.

* **`dragKept_iff`**: when the sides end where the drag put them.
-/

namespace GeserDesk

namespace Editor

/-- The edges within the threshold of a coordinate. -/
def reach (thr v : ℚ) (edges : List ℚ) : List ℚ := edges.filter fun e => |e - v| ≤ thr

/-- `z` is where a coordinate `v` is to be pulled: the nearest edge within the threshold, or `v`. -/
def AtNearest (thr v : ℚ) (edges : List ℚ) (z : ℚ) : Prop :=
  if reach thr v edges = [] then z = v
  else z ∈ reach thr v edges ∧ ∀ e ∈ reach thr v edges, |z - v| ≤ |e - v|

instance (thr v : ℚ) (edges : List ℚ) (z : ℚ) : Decidable (AtNearest thr v edges z) := by
  unfold AtNearest
  infer_instance

/-- The sides of the box along one axis, before and after: those not named by the grip are where
they were, there is the minimum between them, and a side that is dragged is at the minimum or where
it is to be pulled. -/
def SideKept (g : End) (lo hi d : ℚ) (edges : List ℚ) (thr : ℚ) (lo' hi' : ℚ) : Prop :=
  match g with
  | .neither => lo' = lo ∧ hi' = hi
  | .high => lo' = lo ∧ MIN_DESK_SIZE ≤ hi' - lo'
    ∧ (hi' = lo' + MIN_DESK_SIZE ∨ AtNearest thr (mathRound (hi + d)) edges hi')
  | .low => hi' = hi ∧ MIN_DESK_SIZE ≤ hi' - lo'
    ∧ (lo' = hi' - MIN_DESK_SIZE ∨ AtNearest thr (mathRound (lo + d)) edges lo')

/-- The box of the machine after a drag, against the one before it. -/
def DragKept (monitors : List Rect) (start : Placement) (grip : Grip) (dx dy : ℚ)
    (others : List Rect) (thr : ℚ) : Prop :=
  ∃ before after, union (deskRects monitors start) = some before
    ∧ (resized monitors start grip dx dy others thr).bind (fun o => union (deskRects monitors o))
      = some after
    ∧ SideKept grip.fx before.x (before.x + before.w) dx (others.flatMap fun r => [r.x, r.x + r.w])
      thr after.x (after.x + after.w)
    ∧ SideKept grip.fy before.y (before.y + before.h) dy (others.flatMap fun r => [r.y, r.y + r.h])
      thr after.y (after.y + after.h)

/-! ## The scan

The pull runs over the edges and keeps the nearest so far within the threshold. Having met an edge
exactly at the coordinate it starts afresh, so only the edges after the last such one count. -/

/-- No edge within the threshold comes after one exactly at the coordinate. -/
def Settled (thr v : ℚ) (edges : List ℚ) : Prop :=
  v ∈ reach thr v edges → Scan.afterLast v (reach thr v edges) = []

instance (thr v : ℚ) (edges : List ℚ) : Decidable (Settled thr v edges) :=
  inferInstanceAs (Decidable (_ → _))

/-- The first nearest of the edges within the threshold that come after the last one exactly at the
coordinate; the coordinate, where there is none. -/
def nearestAfter (thr v : ℚ) (edges : List ℚ) : ℚ :=
  (Best.of (fun a b => |a - v| < |b - v|) (Scan.afterLast v (reach thr v edges))).getD v

/-- The value itself is nearer than any other. -/
theorem nearer_self {v b : ℚ} (hb : b ≠ v) : |v - v| < |b - v| := by
  rw [sub_self, abs_zero]
  exact abs_pos.mpr (sub_ne_zero.mpr hb)

/-- `pull` is a scan for the nearest edge. -/
theorem pull_eq_run (thr v : ℚ) (edges : List ℚ) :
    pull thr v edges = Scan.run (fun a b => |a - v| < |b - v|) v (reach thr v edges) := by
  rw [Scan.run, reach, List.foldl_filter, pull]
  congr 1
  funext best e
  by_cases he : |e - v| ≤ thr <;> simp [he]

/-- `pull` gives the nearest of the edges listed after the last one exactly there. -/
theorem pull_eq (thr v : ℚ) (edges : List ℚ) : pull thr v edges = nearestAfter thr v edges := by
  rw [pull_eq_run, Scan.run_eq fun b hb => nearer_self hb]
  rfl

/-- A coordinate is pulled where it is to be pulled exactly if the scan is settled. -/
theorem atNearest_pull_iff (thr v : ℚ) (edges : List ℚ) :
    AtNearest thr v edges (nearestAfter thr v edges) ↔ Settled thr v edges := by
  unfold AtNearest
  by_cases hreach : reach thr v edges = []
  · have hnone : nearestAfter thr v edges = v := by rw [nearestAfter, hreach]; rfl
    rw [if_pos hreach, hnone, Settled, hreach]
    simp
  · have hbest := @Scan.run_best_iff _ _ (fun a b => |a - v| < |b - v|) _ v
      (fun a b c => lt_trans) (fun a => lt_irrefl _) (fun b hb => nearer_self hb) _ hreach
    rw [if_neg hreach, ← pull_eq, pull_eq_run]
    simp only [not_lt] at hbest
    exact hbest

/-! ## One axis

What is drawn of a dragged side, by the end that is held: whether the ends drawn are the ends
asked for. -/

/-- When a side along an axis of real extent `n` ends where the drag put it; `spans` are the sides
of the monitors, from the first on. Here `c` is the edge the scan settles on. -/
def SideHolds (g : End) (lo hi n : ℚ) (spans : List (ℚ × ℚ)) (d : ℚ) (edges : List ℚ) (thr : ℚ) :
    Prop :=
  match g with
  -- a box of no width is drawn in its real one, and one turned about is turned about again
  | .neither => lo < hi ∨ lo = hi ∧ mathRound n = 0
    ∨ hi < lo ∧ ∀ s ∈ spans, mathRound (s.1 * ((hi - lo) / n)) = 0
      ∧ mathRound (s.2 * ((hi - lo) / n)) = hi - lo
  | .high =>
    let v := mathRound (hi + d)
    let c := nearestAfter thr v edges
    c ≤ lo + MIN_DESK_SIZE ∨ mathRound (c - lo) = c - lo ∧ Settled thr v edges
    -- a width that is not whole is rounded, and the side moves with it
    ∨ mathRound (c - lo) ≠ c - lo ∧ (mathRound (c - lo) = MIN_DESK_SIZE
      ∨ AtNearest thr v edges (lo + mathRound (c - lo)))
  | .low =>
    let v := mathRound (lo + d)
    let c := nearestAfter thr v edges
    hi - MIN_DESK_SIZE ≤ c ∨ mathRound (hi - c) = hi - c ∧ Settled thr v edges

instance (g : End) (lo hi n : ℚ) (spans : List (ℚ × ℚ)) (d : ℚ) (edges : List ℚ) (thr : ℚ) :
    Decidable (SideHolds g lo hi n spans d edges thr) :=
  match g with
  | .neither => inferInstanceAs (Decidable (_ ∨ _ ∧ _ ∨ _ ∧ ∀ s ∈ spans, _ ∧ _))
  | .high => inferInstanceAs (Decidable (_ ∨ _ ∧ _ ∨ _ ∧ (_ ∨ _)))
  | .low => inferInstanceAs (Decidable (_ ∨ _ ∧ _))

/-- The width a box is drawn in, of a machine whose real width is `n`. -/
def drawn (n w : ℚ) : ℚ := mathRound (n * factor (some w) n)

/-- A positive width is drawn rounded. -/
theorem drawn_of_pos {n w : ℚ} (hn : 0 < n) (hw : 0 < w) : drawn n w = mathRound w := by
  rw [drawn, factor, if_pos ⟨hw.ne', hn⟩, mul_div_cancel₀ _ hn.ne']

/-- A width of nothing is drawn in the real size. -/
theorem drawn_zero (n : ℚ) : drawn n 0 = mathRound n := by
  rw [drawn, factor, if_neg (by simp), mul_one]

/-- The least size is whole. -/
theorem mathRound_min : mathRound MIN_DESK_SIZE = MIN_DESK_SIZE := mathRound_int 64

variable {lo hi n d thr : ℚ} {edges : List ℚ} {spans : List (ℚ × ℚ)}

/-- A dragged right or bottom side is kept just if `SideHolds` says so. -/
theorem high_iff (hn : 0 < n) {v c : ℚ} (hv : v = mathRound (hi + d))
    (hc : c = nearestAfter thr v edges) :
    SideKept .high lo hi d edges thr lo
        (lo + drawn n (max (lo + MIN_DESK_SIZE) c - lo))
      ↔ SideHolds .high lo hi n spans d edges thr := by
  simp only [SideKept, SideHolds, ← hv, ← hc, true_and, add_sub_cancel_left, add_right_inj]
  have hmin := min_pos
  rcases le_or_gt c (lo + MIN_DESK_SIZE) with hshort | hlong
  · have hdrawn : drawn n (max (lo + MIN_DESK_SIZE) c - lo) = MIN_DESK_SIZE := by
      rw [max_eq_left hshort, add_sub_cancel_left, drawn_of_pos hn hmin, mathRound_min]
    rw [hdrawn]
    exact iff_of_true ⟨le_refl _, .inl rfl⟩ (.inl hshort)
  · have hdrawn : drawn n (max (lo + MIN_DESK_SIZE) c - lo) = mathRound (c - lo) := by
      rw [max_eq_right hlong.le, drawn_of_pos hn (by linarith)]
    have hwide : MIN_DESK_SIZE ≤ mathRound (c - lo) := by
      rw [← mathRound_min]
      exact mathRound_mono (by linarith)
    rw [hdrawn]
    by_cases hwhole : mathRound (c - lo) = c - lo
    · have hside : lo + mathRound (c - lo) = c := by rw [hwhole]; ring
      have hfar : mathRound (c - lo) ≠ MIN_DESK_SIZE := by
        rw [hwhole]
        intro h
        linarith
      rw [hside, hc, atNearest_pull_iff, ← hc]
      constructor
      · rintro ⟨-, h | h⟩
        · exact absurd h hfar
        · exact .inr (.inl ⟨hwhole, h⟩)
      · rintro (h | ⟨-, h⟩ | ⟨h, -⟩)
        · exact absurd h (not_le.mpr hlong)
        · exact ⟨hwide, .inr h⟩
        · exact absurd hwhole h
    · simp only [hwide, hwhole, true_and, false_or, not_le.mpr hlong, ne_eq, not_false_eq_true,
        false_and]

/-- A dragged left or top side is kept just if `SideHolds` says so. -/
theorem low_iff (hn : 0 < n) {v c : ℚ} (hv : v = mathRound (lo + d))
    (hc : c = nearestAfter thr v edges) :
    SideKept .low lo hi d edges thr (min (hi - MIN_DESK_SIZE) c)
        (min (hi - MIN_DESK_SIZE) c + drawn n (hi - min (hi - MIN_DESK_SIZE) c))
      ↔ SideHolds .low lo hi n spans d edges thr := by
  simp only [SideKept, SideHolds, ← hv, ← hc, add_sub_cancel_left]
  have hmin := min_pos
  rcases le_or_gt (hi - MIN_DESK_SIZE) c with hshort | hlong
  · have hdrawn : drawn n (hi - min (hi - MIN_DESK_SIZE) c) = MIN_DESK_SIZE := by
      rw [min_eq_left hshort, sub_sub_cancel, drawn_of_pos hn hmin, mathRound_min]
    rw [hdrawn, min_eq_left hshort]
    exact iff_of_true ⟨by ring, le_refl _, .inl (by ring)⟩ (.inl hshort)
  · have hdrawn : drawn n (hi - min (hi - MIN_DESK_SIZE) c) = mathRound (hi - c) := by
      rw [min_eq_right hlong.le, drawn_of_pos hn (by linarith)]
    have hwide : MIN_DESK_SIZE ≤ mathRound (hi - c) := by
      rw [← mathRound_min]
      exact mathRound_mono (by linarith)
    have hfixed : c + mathRound (hi - c) = hi ↔ mathRound (hi - c) = hi - c := by
      constructor <;> intro h <;> linarith
    rw [hdrawn, min_eq_right hlong.le, hfixed]
    by_cases hwhole : mathRound (hi - c) = hi - c
    · have hfar : c ≠ c + mathRound (hi - c) - MIN_DESK_SIZE := by
        rw [hwhole]
        intro h
        linarith
      have hat : AtNearest thr v edges c ↔ Settled thr v edges := by
        rw [hc, atNearest_pull_iff]
      simp only [hwide, hfar, hat, not_le.mpr hlong, true_and, false_or]
    · simp only [hwhole, not_le.mpr hlong, false_and, or_false]

section Axis

variable {ms : List Rect} {f e : Rect → ℚ} {base : ℚ}

/-- A box that is not turned about is drawn from where it begins. -/
theorem sides_of_pos (hlow : IsLeast (f '' {m | m ∈ ms}) base)
    (hhigh : IsGreatest (e '' {m | m ∈ ms}) (base + n)) {l w lo' hi' : ℚ}
    (hw : 0 < factor (some w) n)
    (hlo' : IsLeast ((fun m => edge (f m) base (l - base) (factor (some w) n)) '' {m | m ∈ ms}) lo')
    (hhi' : IsGreatest ((fun m => edge (e m) base (l - base) (factor (some w) n)) '' {m | m ∈ ms})
      hi') : lo' = l ∧ hi' = l + drawn n w := by
  have hl := hlo'.unique (isLeast_edge hw hlow)
  have hr := hhi'.unique (isGreatest_edge hw hhigh)
  rw [sub_add_cancel] at hl hr
  exact ⟨hl, hr⟩

/-- A width that is not negative stretches by a positive factor. -/
theorem factor_pos {w : ℚ} (hw : 0 ≤ w) : 0 < factor (some w) n := by
  rw [factor]
  split
  · next h => exact div_pos (hw.lt_of_ne (Ne.symm h.1)) h.2
  · exact one_pos

/-- A box turned about is drawn where it was if its monitors all reach from one end to the other. -/
theorem turned_iff (hn : 0 < n) (hlow : IsLeast (f '' {m | m ∈ ms}) base)
    (hhigh : IsGreatest (e '' {m | m ∈ ms}) (base + n)) {z : ℤ} (hz : hi - lo = z)
    (hturned : hi < lo)
    {lo' hi' : ℚ}
    (hlo' : IsLeast ((fun m => edge (f m) base (lo - base) (factor (some (hi - lo)) n))
      '' {m | m ∈ ms}) lo')
    (hhi' : IsGreatest ((fun m => edge (e m) base (lo - base) (factor (some (hi - lo)) n))
      '' {m | m ∈ ms}) hi') :
    lo' = lo ∧ hi' = hi ↔ ∀ s ∈ ms.map fun m => (f m - base, e m - base),
      mathRound (s.1 * ((hi - lo) / n)) = 0 ∧ mathRound (s.2 * ((hi - lo) / n)) = hi - lo := by
  -- turned round, every point is drawn left of the one it was right of
  have hneg : (hi - lo) / n < 0 := div_neg_of_neg_of_pos (by linarith) hn
  have hfactor : factor (some (hi - lo)) n = (hi - lo) / n :=
    if_pos ⟨(sub_neg.mpr hturned).ne, hn⟩
  have hedge : ∀ v, edge v base (lo - base) ((hi - lo) / n)
      = lo + mathRound ((v - base) * ((hi - lo) / n)) := by
    intro v
    rw [edge, sub_add_cancel]
  simp only [hfactor, hedge] at hlo' hhi'
  rw [List.forall_mem_map]
  constructor
  -- the least is the low end and the greatest the high end, so rounding sends every monitor to both
  · rintro ⟨rfl, rfl⟩ m hm
    have hleft := hlo'.2 ⟨m, hm, rfl⟩
    have hright := hhi'.2 ⟨m, hm, rfl⟩
    have hfirst : 0 ≤ f m - base := sub_nonneg.mpr (hlow.2 ⟨m, hm, rfl⟩)
    have hlast : e m - base ≤ n := sub_le_iff_le_add'.mpr (hhigh.2 ⟨m, hm, rfl⟩)
    have hnonpos := mathRound_mono (mul_nonpos_of_nonneg_of_nonpos hfirst hneg.le)
    have hwide := mathRound_mono (mul_le_mul_of_nonpos_right hlast hneg.le)
    have hzero : mathRound 0 = 0 := by exact_mod_cast mathRound_int 0
    rw [hzero] at hnonpos
    rw [mul_div_cancel₀ _ hn.ne', hz, mathRound_int, ← hz] at hwide
    dsimp only at hleft hright ⊢
    exact ⟨le_antisymm hnonpos (by linarith), le_antisymm (by linarith) hwide⟩
  -- if every monitor lands on both ends, so do the least and the greatest
  · intro hall
    obtain ⟨⟨m, hm, hmlo⟩, -⟩ := hlo'
    obtain ⟨⟨m', hm', hmhi⟩, -⟩ := hhi'
    have hleft := (hall m hm).1
    have hright := (hall m' hm').2
    dsimp only at hmlo hmhi hleft hright
    rw [hleft] at hmlo
    rw [hright] at hmhi
    exact ⟨by linarith, by linarith⟩

/-- What a drag does along an axis, as it is drawn. -/
theorem sideKept_iff (g : End) (lo hi d : ℚ) (edges : List ℚ) (thr : ℚ) (hn : 0 < n)
    (hlow : IsLeast (f '' {m | m ∈ ms}) base)
    (hhigh : IsGreatest (e '' {m | m ∈ ms}) (base + n)) {z : ℤ} (hz : hi - lo = z)
    {l r lo' hi' : ℚ} (hsides : draggedSides g lo hi d edges thr = (l, r))
    (hlo' : IsLeast ((fun m => edge (f m) base (l - base) (factor (some (r - l)) n))
      '' {m | m ∈ ms}) lo')
    (hhi' : IsGreatest ((fun m => edge (e m) base (l - base) (factor (some (r - l)) n))
      '' {m | m ∈ ms}) hi') :
    SideKept g lo hi d edges thr lo' hi'
      ↔ SideHolds g lo hi n (ms.map fun m => (f m - base, e m - base)) d edges thr := by
  have hmin := min_pos
  -- which end is held decides which sums are made
  cases g with
  | neither =>
    cases hsides
    simp only [SideKept, SideHolds]
    -- no end is dragged: the side has some length, none, or is turned round
    rcases lt_trichotomy lo hi with hlt | heq | hgt
    · obtain ⟨hl, hr⟩ := sides_of_pos hlow hhigh (factor_pos (by linarith)) hlo' hhi'
      have hdrawn : drawn n (hi - lo) = hi - lo := by
        rw [drawn_of_pos hn (by linarith), hz, mathRound_int]
      rw [hdrawn] at hr
      exact iff_of_true ⟨hl, by linarith⟩ (.inl hlt)
    · obtain ⟨hl, hr⟩ := sides_of_pos hlow hhigh (factor_pos (by linarith)) hlo' hhi'
      rw [heq, sub_self, drawn_zero] at hr
      have hend : hi' = hi ↔ mathRound n = 0 := by
        constructor <;> intro h <;> linarith
      simp [hl, hend, heq]
    · have hturned := turned_iff hn hlow hhigh hz hgt hlo' hhi'
      rw [hturned]
      simp [hgt, hgt.not_gt, hgt.ne']
  -- the high end is held, and a side is never less than the least one
  | high =>
    simp only [draggedSides, pull_eq] at hsides
    obtain ⟨rfl, rfl⟩ := Prod.mk.inj hsides
    have hwide := le_max_left (lo + MIN_DESK_SIZE) (nearestAfter thr (mathRound (hi + d)) edges)
    obtain ⟨hl, hr⟩ := sides_of_pos hlow hhigh (factor_pos (by linarith)) hlo' hhi'
    rw [hl, hr]
    exact high_iff hn rfl rfl
  -- the low end is held
  | low =>
    simp only [draggedSides, pull_eq] at hsides
    obtain ⟨rfl, rfl⟩ := Prod.mk.inj hsides
    have hwide := min_le_left (hi - MIN_DESK_SIZE) (nearestAfter thr (mathRound (lo + d)) edges)
    obtain ⟨hl, hr⟩ := sides_of_pos hlow hhigh (factor_pos (by linarith)) hlo' hhi'
    rw [hl, hr]
    exact low_iff hn rfl rfl

/-- The sides of a box on the desk are a whole number of pixels apart. -/
theorem sides_whole {origin k lo' hi' : ℚ}
    (hlo' : IsLeast ((fun m => edge (f m) base origin k) '' {m | m ∈ ms}) lo')
    (hhi' : IsGreatest ((fun m => edge (e m) base origin k) '' {m | m ∈ ms}) hi') :
    ∃ z : ℤ, hi' - lo' = z := by
  obtain ⟨⟨m, -, hm⟩, -⟩ := hlo'
  obtain ⟨⟨m', -, hm'⟩, -⟩ := hhi'
  refine ⟨⌊(e m' - base) * k + 1 / 2⌋ - ⌊(f m - base) * k + 1 / 2⌋, ?_⟩
  rw [← hm, ← hm']
  simp only [edge, mathRound]
  push_cast
  ring

end Axis

/-! ## The box

Both axes together. -/

/-- When the sides end where the drag put them. -/
def DragHolds (monitors : List Rect) (start : Placement) (grip : Grip) (dx dy : ℚ)
    (others : List Rect) (thr : ℚ) : Prop :=
  ∃ n box, union monitors = some n ∧ union (deskRects monitors start) = some box
    ∧ SideHolds grip.fx box.x (box.x + box.w) n.w
      (monitors.map fun m => (m.x - n.x, m.x + m.w - n.x)) dx
      (others.flatMap fun r => [r.x, r.x + r.w]) thr
    ∧ SideHolds grip.fy box.y (box.y + box.h) n.h
      (monitors.map fun m => (m.y - n.y, m.y + m.h - n.y)) dy
      (others.flatMap fun r => [r.y, r.y + r.h]) thr

/-- The sides that the grip does not name stay, and the others are at the minimum or pulled to the
nearest edge within the threshold, exactly if no edge within it is listed after one the dragged side
lies on (but for one within the minimum), and sides fall on whole pixels. -/
theorem dragKept_iff (ms : List Rect) (start : Placement) (grip : Grip) (dx dy : ℚ)
    (others : List Rect) (thr : ℚ) (hms : RealMonitors ms) :
    DragKept ms start grip dx dy others thr ↔ DragHolds ms start grip dx dy others thr := by
  -- the machine's box, before the drag and after it
  obtain ⟨n, hn⟩ := exists_union hms.1
  obtain ⟨hnw, hnh⟩ := union_real hms hn
  obtain ⟨box, hbox⟩ := exists_union_deskRects hms.1 start
  have hu := isUnion_of_union hn
  obtain ⟨⟨hleft, hright⟩, htop, hbottom⟩ := deskRects_sides hn hbox
  obtain ⟨zw, hzw⟩ := sides_whole hleft hright
  obtain ⟨zh, hzh⟩ := sides_whole htop hbottom
  -- the sides asked for on each axis
  obtain ⟨l, r, hsx⟩ : ∃ l r, draggedSides grip.fx box.x (box.x + box.w) dx
      (others.flatMap fun r => [r.x, r.x + r.w]) thr = (l, r) := ⟨_, _, Prod.mk.eta.symm⟩
  obtain ⟨t, b, hsy⟩ : ∃ t b, draggedSides grip.fy box.y (box.y + box.h) dy
      (others.flatMap fun r => [r.y, r.y + r.h]) thr = (t, b) := ⟨_, _, Prod.mk.eta.symm⟩
  have ho : resized ms start grip dx dy others thr
      = some ⟨l - n.x, t - n.y, some (r - l), some (b - t)⟩ := by
    simp only [resized, hn, hbox, Option.bind_eq_bind, Option.bind_some, hsx, hsy]
  obtain ⟨after, hafter⟩ := exists_union_deskRects hms.1
    ⟨l - n.x, t - n.y, some (r - l), some (b - t)⟩
  obtain ⟨⟨hleft', hright'⟩, htop', hbottom'⟩ := deskRects_sides hn hafter
  -- an axis each
  have hx := sideKept_iff grip.fx _ _ _ _ _ hnw hu.left hu.right hzw hsx hleft' hright'
  have hy := sideKept_iff grip.fy _ _ _ _ _ hnh hu.top hu.bottom hzh hsy htop' hbottom'
  constructor
  · rintro ⟨before, after', hbefore, hresized, hkx, hky⟩
    rw [hbox] at hbefore
    rw [ho, Option.bind_some, hafter] at hresized
    cases hbefore
    cases hresized
    exact ⟨n, box, hn, hbox, hx.mp hkx, hy.mp hky⟩
  · rintro ⟨n', box', hn', hbox', hkx, hky⟩
    rw [hn] at hn'
    rw [hbox] at hbox'
    cases hn'
    cases hbox'
    exact ⟨box, after, hbox, by rw [ho, Option.bind_some, hafter], hx.mpr hkx, hy.mpr hky⟩

/-- A laptop of one monitor, right of a server. -/
def laptop : List Rect := [⟨0, 0, 1920, 1080⟩]

def besideServer : Placement := { x := 1920, y := 0 }

/-- Its bottom is dragged near to that of the server, which has two monitors. -/
theorem dragKept_to_the_bottom : DragKept laptop besideServer ⟨.neither, .high⟩ 0 1090
    [⟨0, 0, 1920, 1080⟩, ⟨0, 1080, 1920, 1080⟩] 24 :=
  (dragKept_iff laptop besideServer ⟨.neither, .high⟩ 0 1090
    [⟨0, 0, 1920, 1080⟩, ⟨0, 1080, 1920, 1080⟩] 24 (by decide +kernel)).mpr
    ⟨⟨0, 0, 1920, 1080⟩, ⟨1920, 0, 1920, 1080⟩, by decide +kernel, by decide +kernel,
      by decide +kernel, by decide +kernel⟩

/-- Its right side lies on the edge of a machine at 3840; one at 3850 is listed after it. -/
theorem dragged_off_an_edge : ¬ ∀ (ms : List Rect) (start : Placement) (grip : Grip) (dx dy : ℚ)
    (others : List Rect) (thr : ℚ), RealMonitors ms →
      DragKept ms start grip dx dy others thr := by
  intro h
  -- the side is on an edge already, and another one lies ten pixels further
  obtain ⟨before, after, hbefore, hafter, ⟨-, -, hside⟩, -⟩ :=
    h laptop besideServer ⟨.high, .neither⟩ 0 0
      [⟨3840, 1080, 1920, 1080⟩, ⟨3850, 2160, 1920, 1080⟩] 24 (by decide +kernel)
  have hbox : union (deskRects laptop besideServer) = some ⟨1920, 0, 1920, 1080⟩ := by
    decide +kernel
  have hdrawn : (resized laptop besideServer ⟨.high, .neither⟩ 0 0
      [⟨3840, 1080, 1920, 1080⟩, ⟨3850, 2160, 1920, 1080⟩] 24).bind
        (fun o => union (deskRects laptop o)) = some ⟨1920, 0, 1930, 1080⟩ := by
    decide +kernel
  rw [hbox] at hbefore
  rw [hdrawn] at hafter
  cases hbefore
  cases hafter
  revert hside
  decide +kernel

end Editor

end GeserDesk
