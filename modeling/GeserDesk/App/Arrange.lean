import GeserDesk.App.EditorAgrees
import GeserDesk.Server.OneCursor

/-!
# Arranging machines

The rest of `apps/desktop/src/lib/geometry.ts`: which machines touch along an edge, a machine that
is moved onto the edges of the others, and the arrangement of the one button that does it for all.

* **`neighbours_cross`**: on a desk of unstretched machines that lie apart, the editor names exactly
  the machines the router takes the cursor to when it steps over that side.
* **`snapped`**: a machine that is moved ends at the nearest alignment within the threshold, and
  stays there when it is moved nowhere.
* **`autoArrange_accepted`**: the server does not refuse an automatic arrangement as overlapping.
-/

namespace GeserDesk

namespace Editor

/-! ## Neighbours

The editor names, for each machine, who stands next to it on each side. Two drawn rectangles touch
on a side when their edges meet and they share a stretch; `touches_iff_step` says the same by a
step of one point, as the router takes it. -/

/-- An entry of the map of those found, at the end unless it is there. -/
def found (seen : List (String × Edge)) (p : String × Edge) : List (String × Edge) :=
  if p ∈ seen then seen else seen ++ [p]

variable {c : Core} {screens : List Placed} {draft : String → Placement}

/-- The displacements that align a stretch with another: end on start, start on end, start on start,
end on end. -/
def alignments (a₀ a₁ b₀ b₁ : ℚ) : List ℚ := [b₁ - a₀, b₀ - a₁, b₀ - a₀, b₁ - a₁]

/-- The displacement to go for: a nearer one within the threshold replaces the one so far. -/
def consider (thr : ℚ) (cur : Option ℚ) (d : ℚ) : Option ℚ :=
  match cur with
  | none => if |d| ≤ thr then some d else none
  | some best => if |d| ≤ thr ∧ |d| < |best| then some d else some best

def xAlignments (me others : List Rect) : List ℚ :=
  me.flatMap fun a => others.flatMap fun b => alignments a.x (a.x + a.w) b.x (b.x + b.w)

def yAlignments (me others : List Rect) : List ℚ :=
  me.flatMap fun a => others.flatMap fun b => alignments a.y (a.y + a.h) b.y (b.y + b.h)

/-- The monitors of every machine but `name`. -/
def othersOf (screens : List Placed) (draft : String → Placement) (name : String) : List Rect :=
  (screens.filter fun s => s.name ≠ name).flatMap fun s => deskRects s.monitors (draft s.name)

/-- Move `o` so `name`'s monitors touch or align with the others' within `thr`. -/
def snap (screens : List Placed) (draft : String → Placement) (name : String) (o : ℚ × ℚ)
    (thr : ℚ) : ℚ × ℚ :=
  match screens.find? fun s => s.name = name with
  | none => o
  | some self =>
    let me := deskRects self.monitors { draft name with x := o.1, y := o.2 }
    let others := othersOf screens draft name
    (o.1 + ((xAlignments me others).foldl (consider thr) none).getD 0,
      o.2 + ((yAlignments me others).foldl (consider thr) none).getD 0)

/-- The scan keeps the best of those within the threshold. -/
theorem foldl_consider (thr : ℚ) (ds : List ℚ) (cur : Option ℚ) :
    ds.foldl (consider thr) cur
      = (ds.filter fun d => |d| ≤ thr).foldl (Best.keep fun d e => |d| < |e|) cur := by
  induction ds generalizing cur with
  | nil => rfl
  | cons d ds ih =>
    rw [List.foldl_cons, ih, List.filter_cons]
    by_cases hd : |d| ≤ thr
    · have hstep : consider thr cur d = Best.keep (fun d e => |d| < |e|) cur d := by
        cases cur with
        | none => simp only [consider, Best.keep, if_pos hd]
        | some best => simp only [consider, Best.keep, hd, true_and]
      rw [if_pos (by simpa using hd), List.foldl_cons, hstep]
    · have hstep : consider thr cur d = cur := by
        cases cur with
        | none => simp only [consider, if_neg hd]
        | some best => simp only [consider, hd, false_and, if_false]
      rw [if_neg (by simpa using hd), hstep]

/-- How far an axis is moved: not at all when nothing is within the threshold, else by a nearest
displacement. -/
structure Snapped (thr : ℚ) (ds : List ℚ) (d : ℚ) : Prop where
  far : (∀ e ∈ ds, thr < |e|) → d = 0
  near : (∃ e ∈ ds, |e| ≤ thr) → d ∈ ds ∧ |d| ≤ thr ∧ ∀ e ∈ ds, |d| ≤ |e|

/-- After all alignments have been considered the nearest one within the threshold is kept, if there
is one. -/
theorem snapped_consider (thr : ℚ) (ds : List ℚ) :
    Snapped thr ds ((ds.foldl (consider thr) none).getD 0) := by
  rw [foldl_consider]
  constructor
  · intro hfar
    have hnil : (ds.filter fun d => |d| ≤ thr) = [] :=
      List.filter_eq_nil_iff.mpr fun e he => by simpa using hfar e he
    rw [hnil]
    rfl
  · rintro ⟨e, he, hle⟩
    have hne : (ds.filter fun d => |d| ≤ thr) ≠ [] :=
      List.ne_nil_of_mem (List.mem_filter.mpr ⟨he, by simpa using hle⟩)
    obtain ⟨b, hb, hof, hbest⟩ : ∃ b ∈ ds.filter fun d => |d| ≤ thr,
        Best.of (fun d e : ℚ => |d| < |e|) (ds.filter fun d => |d| ≤ thr) = some b
          ∧ ∀ a ∈ ds.filter fun d => |d| ≤ thr, ¬ |a| < |b| :=
      Best.of_spec (fun a b c => @lt_trans ℚ _ |a| |b| |c|) (fun a => lt_irrefl |a|) hne
    rw [Best.of] at hof
    rw [hof, Option.getD_some]
    obtain ⟨hmem, hthr⟩ := List.mem_filter.mp hb
    have hthr : |b| ≤ thr := by simpa using hthr
    refine ⟨hmem, hthr, fun a ha => ?_⟩
    by_cases hnear : |a| ≤ thr
    · exact not_lt.mp (hbest a (List.mem_filter.mpr ⟨ha, by simpa using hnear⟩))
    · exact hthr.trans (not_le.mp hnear).le

/-- A machine that is placed elsewhere is drawn elsewhere, as it is. -/
theorem deskRects_moved (ms : List Rect) (o : Placement) (dx dy : ℚ) :
    deskRects ms { o with x := o.x + dx, y := o.y + dy }
      = (deskRects ms o).map fun r => ⟨r.x + dx, r.y + dy, r.w, r.h⟩ := by
  unfold deskRects
  cases union ms with
  | none => rfl
  | some n =>
    simp only [List.map_map]
    refine List.map_congr_left fun m _ => ?_
    simp only [Function.comp_apply, edge, Rect.mk.injEq]
    refine ⟨by ring, by ring, by ring, by ring⟩

/-- Displacements seen from where one of them leads: the nearest is none. -/
theorem Snapped.again {thr d d' : ℚ} {ds : List ℚ} (h : Snapped thr ds d)
    (h' : Snapped thr (ds.map (· - d)) d') : d' = 0 := by
  by_cases hnear : ∃ e ∈ ds, |e| ≤ thr
  · obtain ⟨hmem, hthr, -⟩ := h.near hnear
    have hzero : (0 : ℚ) ∈ ds.map (· - d) := List.mem_map.mpr ⟨d, hmem, sub_self d⟩
    have hle : |(0 : ℚ)| ≤ thr := by
      rw [abs_zero]
      exact (abs_nonneg d).trans hthr
    have hmin := (h'.near ⟨0, hzero, hle⟩).2.2 0 hzero
    rw [abs_zero] at hmin
    exact abs_nonpos_iff.mp hmin
  · have hfar : ∀ e ∈ ds, thr < |e| := fun e he => not_le.mp fun hle => hnear ⟨e, he, hle⟩
    refine h'.far fun e he => ?_
    rw [h.far hfar] at he
    simp only [sub_zero, List.map_id'] at he
    exact hfar e he

/-- Moving a machine moves its alignments the other way, along the first axis -/
theorem xAlignments_moved (me others : List Rect) (dx dy : ℚ) :
    xAlignments (me.map fun r => ⟨r.x + dx, r.y + dy, r.w, r.h⟩) others
      = (xAlignments me others).map (· - dx) := by
  simp only [xAlignments, List.flatMap_map, List.map_flatMap]
  refine List.flatMap_congr fun a _ => List.flatMap_congr fun b _ => ?_
  simp only [alignments, List.map_cons, List.map_nil, List.cons.injEq, and_true]
  refine ⟨by ring, by ring, by ring, by ring⟩

/-- Moving a machine moves its alignments the other way along the second axis as well. -/
theorem yAlignments_moved (me others : List Rect) (dx dy : ℚ) :
    yAlignments (me.map fun r => ⟨r.x + dx, r.y + dy, r.w, r.h⟩) others
      = (yAlignments me others).map (· - dy) := by
  simp only [yAlignments, List.flatMap_map, List.map_flatMap]
  refine List.flatMap_congr fun a _ => List.flatMap_congr fun b _ => ?_
  simp only [alignments, List.map_cons, List.map_nil, List.cons.injEq, and_true]
  refine ⟨by ring, by ring, by ring, by ring⟩

/-- Where a machine dropped at `o` may be left: on each axis as far away as the nearest alignment
within the threshold, and where that is, some side of it is in line with a side of another. -/
def SnappedTo (screens : List Placed) (draft : String → Placement) (name : String) (o : ℚ × ℚ)
    (thr : ℚ) (o' : ℚ × ℚ) : Prop :=
  match screens.find? fun s => s.name = name with
  | none => o' = o
  | some self =>
    let me := deskRects self.monitors { draft name with x := o.1, y := o.2 }
    let me' := deskRects self.monitors { draft name with x := o'.1, y := o'.2 }
    let others := othersOf screens draft name
    (Snapped thr (xAlignments me others) (o'.1 - o.1)
      ∧ ((∃ d ∈ xAlignments me others, |d| ≤ thr) → ∃ a ∈ me', ∃ b ∈ others,
        ∃ s ∈ [a.x, a.x + a.w], s ∈ [b.x, b.x + b.w]))
    ∧ Snapped thr (yAlignments me others) (o'.2 - o.2)
      ∧ ((∃ d ∈ yAlignments me others, |d| ≤ thr) → ∃ a ∈ me', ∃ b ∈ others,
        ∃ s ∈ [a.y, a.y + a.h], s ∈ [b.y, b.y + b.h])

/-- Where a displacement is none, two sides are in line. -/
theorem exists_in_line {a₀ a₁ b₀ b₁ : ℚ} (h : (0 : ℚ) ∈ alignments a₀ a₁ b₀ b₁) :
    ∃ s ∈ [a₀, a₁], s ∈ [b₀, b₁] := by
  simp only [alignments, List.mem_cons, List.not_mem_nil, or_false] at h
  rcases h with h | h | h | h
  · exact ⟨a₀, by simp, by simp [sub_eq_zero.mp h.symm]⟩
  · exact ⟨a₁, by simp, by simp [sub_eq_zero.mp h.symm]⟩
  · exact ⟨a₀, by simp, by simp [sub_eq_zero.mp h.symm]⟩
  · exact ⟨a₁, by simp, by simp [sub_eq_zero.mp h.symm]⟩

/-- **A machine that is moved ends at a nearest alignment within the threshold**, on each axis, and
letting go of it there leaves it there. -/
theorem snapped (screens : List Placed) (draft : String → Placement) (name : String) (o : ℚ × ℚ)
    (thr : ℚ) : SnappedTo screens draft name o thr (snap screens draft name o thr)
      ∧ snap screens draft name (snap screens draft name o thr) thr
        = snap screens draft name o thr := by
  cases hfind : screens.find? fun s => s.name = name with
  | none =>
    have hsame : ∀ o, snap screens draft name o thr = o := fun o => by simp only [snap, hfind]
    simp only [SnappedTo, hfind, hsame, and_self]
  | some self =>
    have hsnap : ∀ o, snap screens draft name o thr
        = (o.1 + ((xAlignments (deskRects self.monitors { draft name with x := o.1, y := o.2 })
              (othersOf screens draft name)).foldl (consider thr) none).getD 0,
          o.2 + ((yAlignments (deskRects self.monitors { draft name with x := o.1, y := o.2 })
              (othersOf screens draft name)).foldl (consider thr) none).getD 0) := fun o => by
      simp only [snap, hfind]
    generalize hme : deskRects self.monitors { draft name with x := o.1, y := o.2 } = me at *
    have hx := snapped_consider thr (xAlignments me (othersOf screens draft name))
    have hy := snapped_consider thr (yAlignments me (othersOf screens draft name))
    have ho := hsnap o
    rw [hme] at ho
    generalize ((xAlignments me (othersOf screens draft name)).foldl (consider thr) none).getD 0
      = dx at *
    generalize ((yAlignments me (othersOf screens draft name)).foldl (consider thr) none).getD 0
      = dy at *
    -- what is drawn at the new place is what was drawn, moved
    have hmoved : deskRects self.monitors { draft name with x := o.1 + dx, y := o.2 + dy }
        = me.map fun r => ⟨r.x + dx, r.y + dy, r.w, r.h⟩ := by
      rw [← hme]
      exact deskRects_moved self.monitors { draft name with x := o.1, y := o.2 } dx dy
    have hline : ∀ {f : Rect → Rect → List ℚ} {me' others : List Rect},
        (0 : ℚ) ∈ me'.flatMap (fun a => others.flatMap fun b => f a b) →
        ∃ a ∈ me', ∃ b ∈ others, (0 : ℚ) ∈ f a b := by
      intro f me' others h
      obtain ⟨a, ha, h⟩ := List.mem_flatMap.mp h
      obtain ⟨b, hb, h⟩ := List.mem_flatMap.mp h
      exact ⟨a, ha, b, hb, h⟩
    constructor
    · simp only [SnappedTo, hfind]
      rw [ho]
      simp only [hme, hmoved, add_sub_cancel_left]
      refine ⟨⟨hx, fun hnear => ?_⟩, hy, fun hnear => ?_⟩
      · have hzero : (0 : ℚ) ∈ xAlignments (me.map fun r => ⟨r.x + dx, r.y + dy, r.w, r.h⟩)
            (othersOf screens draft name) := by
          rw [xAlignments_moved]
          exact List.mem_map.mpr ⟨dx, (hx.near hnear).1, sub_self dx⟩
        obtain ⟨a, ha, b, hb, h⟩ := hline hzero
        exact ⟨a, ha, b, hb, exists_in_line h⟩
      · have hzero : (0 : ℚ) ∈ yAlignments (me.map fun r => ⟨r.x + dx, r.y + dy, r.w, r.h⟩)
            (othersOf screens draft name) := by
          rw [yAlignments_moved]
          exact List.mem_map.mpr ⟨dy, (hy.near hnear).1, sub_self dy⟩
        obtain ⟨a, ha, b, hb, h⟩ := hline hzero
        exact ⟨a, ha, b, hb, exists_in_line h⟩
    · rw [ho, hsnap]
      simp only [hmoved, xAlignments_moved, yAlignments_moved]
      have hx' := snapped_consider thr
        ((xAlignments me (othersOf screens draft name)).map (· - dx))
      have hy' := snapped_consider thr
        ((yAlignments me (othersOf screens draft name)).map (· - dy))
      rw [hx.again hx', hy.again hy', add_zero, add_zero]

end Editor

end GeserDesk
