import GeserDesk.App.Geometry
import GeserDesk.Server.AutoPlacement
import GeserDesk.Server.DeskOverlap

/-!
# The editor and the server on one desk

`save` of `LayoutEditor.tsx` sends what is drafted, and the check of `DeskState::validate` refuses
it. Both work out where every monitor lies on the desk, in two languages, with two ways to round and
two to say that a machine has its real size.

* **`deskRects_eq`**: they come to the same rectangles.
* **`editor_agrees`**: the server refuses a layout as overlapping exactly if the editor shows an
  overlap and no coordinate or size is out of range, which the server looks at first.
-/

namespace GeserDesk

namespace Editor

/-! ## What the editor has of a desk

The server's view of a machine, in the editor's rational numbers, and what its Save button sends
back. -/

def ofRect (r : GeserDesk.Rect) : Rect := ⟨r.x, r.y, r.w, r.h⟩

def ofSize (s : Size) : ℚ × ℚ := (s.w, s.h)

def ofView (v : ScreenView) : Placed := ⟨v.name, v.monitors.map ofRect⟩

/-- A number as the server takes it: whole, or the request is not understood. -/
def wholeNumber (q : ℚ) : Option Int := if q.den = 1 then some q.num else none

/-- One machine's part of the request. -/
def saveScreen (draft : String → Placement) (s : Placed) : Option (Point × Option Size) := do
  let o := draft s.name
  let x ← wholeNumber o.x
  let y ← wholeNumber o.y
  match deskSize s.monitors o with
  | none => some (⟨x, y⟩, none)
  | some size =>
    let w ← wholeNumber size.1
    let h ← wholeNumber size.2
    some (⟨x, y⟩, some ⟨w, h⟩)

/-- The request `save` sends: every machine's position, and its size or that it has its real one. -/
def save (draft : String → Placement) (screens : List Placed) :
    Option (Dict String Point × Dict String (Option Size)) :=
  screens.foldlM (fun sent s => (saveScreen draft s).map fun part =>
    (sent.1.put s.name part.1, sent.2.put s.name part.2)) (∅, ∅)

/-! ## One machine

The editor draws a machine by the same factors and the same rounding as the server's frame. For
whole drafts the two rectangles are equal. -/

/-- A coordinate that is whole is its integer. -/
theorem cast_wholeNumber {q : ℚ} {z : Int} (h : wholeNumber q = some z) : (z : ℚ) = q := by
  unfold wholeNumber at h
  split at h
  · next hden =>
    cases h
    exact Rat.coe_int_num_of_den_eq_one hden
  · cases h

/-- What is sent of a machine says where it is and what size it has. -/
theorem saveScreen_spec {draft : String → Placement} {s : Placed} {p : Point} {size : Option Size}
    (h : saveScreen draft s = some (p, size)) :
    (draft s.name).x = p.x ∧ (draft s.name).y = p.y
      ∧ deskSize s.monitors (draft s.name) = size.map ofSize := by
  rw [saveScreen] at h
  obtain ⟨x, hx, h⟩ := Option.bind_eq_some_iff.mp h
  obtain ⟨y, hy, h⟩ := Option.bind_eq_some_iff.mp h
  cases hsize : deskSize s.monitors (draft s.name) with
  | none =>
    rw [hsize] at h
    cases h
    exact ⟨(cast_wholeNumber hx).symm, (cast_wholeNumber hy).symm, rfl⟩
  | some wanted =>
    rw [hsize] at h
    obtain ⟨w, hw, h⟩ := Option.bind_eq_some_iff.mp h
    obtain ⟨hh, hhh, h⟩ := Option.bind_eq_some_iff.mp h
    cases h
    refine ⟨(cast_wholeNumber hx).symm, (cast_wholeNumber hy).symm, ?_⟩
    rw [Option.map_some, ofSize, cast_wholeNumber hw, cast_wholeNumber hhh]

/-- A fold over integers is one over rationals. -/
theorem foldl_cast {op : Int → Int → Int} {opq : ℚ → ℚ → ℚ}
    (hop : ∀ a b : Int, opq a b = (op a b : Int)) {f : GeserDesk.Rect → Int} {g : Rect → ℚ}
    (hfg : ∀ r, g (ofRect r) = f r) (rest : List GeserDesk.Rect) (l : Int) :
    (rest.map ofRect).foldl (fun l m => opq l (g m)) (l : ℚ)
      = (rest.foldl (fun l m => op l (f m)) l : Int) := by
  induction rest generalizing l with
  | nil => rfl
  | cons r rest ih => rw [List.map_cons, List.foldl_cons, List.foldl_cons, hfg, hop, ih]

/-- On whole monitors the editor's union is the server's. -/
theorem union_ofRect (ms : List GeserDesk.Rect) :
    union (ms.map ofRect) = (GeserDesk.Rect.unionAll ms).map ofRect := by
  cases ms with
  | nil => rfl
  | cons m rest =>
    have hmin : ∀ a b : Int, min (a : ℚ) b = (min a b : Int) := fun a b => (Int.cast_min ..).symm
    have hmax : ∀ a b : Int, max (a : ℚ) b = (max a b : Int) := fun a b => (Int.cast_max ..).symm
    have hright : ∀ r : GeserDesk.Rect, (ofRect r).x + (ofRect r).w = (r.right : Int) := by
      intro r
      simp [ofRect, GeserDesk.Rect.right]
    have hbottom : ∀ r : GeserDesk.Rect, (ofRect r).y + (ofRect r).h = (r.bottom : Int) := by
      intro r
      simp [ofRect, GeserDesk.Rect.bottom]
    have hl := foldl_cast hmin (f := GeserDesk.Rect.left) (g := Rect.x) (fun r => rfl) rest m.left
    have ht := foldl_cast hmin (f := GeserDesk.Rect.top) (g := Rect.y) (fun r => rfl) rest m.top
    have hr := foldl_cast hmax (g := fun r => r.x + r.w) hright rest m.right
    have hb := foldl_cast hmax (g := fun r => r.y + r.h) hbottom rest m.bottom
    have hx : (ofRect m).x = (m.left : Int) := rfl
    have hy : (ofRect m).y = (m.top : Int) := rfl
    simp only [List.map_cons, union, GeserDesk.Rect.unionAll, Option.map_some, hright, hbottom]
    rw [hr, hb, hx, hy, hl, ht]
    simp [ofRect]

/-- There is a union as soon as there is a monitor. -/
theorem exists_unionAll {ms : List GeserDesk.Rect} (h : ms ≠ []) :
    ∃ n, GeserDesk.Rect.unionAll ms = some n := by
  cases ms with
  | nil => exact absurd rfl h
  | cons m rest => exact ⟨_, rfl⟩

/-- The editor's union is found from the server's. -/
theorem union_of_unionAll {ms : List GeserDesk.Rect} {n : GeserDesk.Rect}
    (h : GeserDesk.Rect.unionAll ms = some n) : union (ms.map ofRect) = some (ofRect n) := by
  rw [union_ofRect, h]
  rfl

/-- The two ways to round agree on what is not negative. -/
theorem mathRound_eq {q : ℚ} (hq : 0 ≤ q) : mathRound q = roundHalfAway q := by
  rw [mathRound, roundHalfAway, if_pos hq]

/-- Scaling an edge of whole numbers rounds it as the server does. -/
theorem edge_eq (origin : Int) {v base : Int} (hv : base ≤ v) {k : ℚ} (hk : 0 < k) :
    edge v base origin k
      = (origin + base + roundHalfAway (((v - base : Int) : ℚ) * k) : Int) := by
  have hsub : ((v - base : Int) : ℚ) = v - base := Int.cast_sub _ _
  have hnonneg : (0 : ℚ) ≤ (v - base : Int) := by exact_mod_cast sub_nonneg.mpr hv
  rw [edge, ← hsub, mathRound_eq (mul_nonneg hnonneg hk.le)]
  push_cast
  rfl

/-- The stretch, said of the extent the machine is to have. -/
theorem factor_eq {want : Option ℚ} {real : ℚ} (hreal : 0 < real)
    (hwant : ∀ w, want = some w → 0 < w) : factor want real = want.getD real / real := by
  cases want with
  | none => exact (div_self hreal.ne').symm
  | some w => exact if_pos ⟨(hwant w rfl).ne', hreal⟩

/-- A draft gives a machine no size, or one that is positive. -/
def Placement.Positive (o : Placement) : Prop :=
  (∀ w, o.w = some w → 0 < w) ∧ ∀ h, o.h = some h → 0 < h

/-- The server stretches a machine as the editor does, whether a size is sent for it or not. -/
theorem frame_factors {ms : List GeserDesk.Rect} {n : GeserDesk.Rect}
    (hn : GeserDesk.Rect.unionAll ms = some n) (hreal : n.Real) {o : Placement} (ho : o.Positive)
    {size : Option Size} (hsize : deskSize (ms.map ofRect) o = size.map ofSize) (p : Point) :
    (Frame.new p (some n) size).sx = factor o.w n.w
      ∧ (Frame.new p (some n) size).sy = factor o.h n.h := by
  obtain ⟨hw, hh⟩ := hreal
  have hwq : (0 : ℚ) < n.w := by exact_mod_cast hw
  have hhq : (0 : ℚ) < n.h := by exact_mod_cast hh
  have hunion := union_of_unionAll hn
  rw [factor_eq hwq ho.1, factor_eq hhq ho.2]
  rw [deskSize, hunion] at hsize
  -- a machine drawn in another size carries that size
  by_cases hstretched : isStretched (ms.map ofRect) (some o) = true
  · rw [if_pos hstretched] at hsize
    cases size with
    | none => cases hsize
    | some s =>
      obtain ⟨hsw, hsh⟩ := Prod.mk.inj (Option.some.inj hsize)
      -- a width asked for is positive, and so is the real one
      have hpos : ∀ {want : Option ℚ} {real : ℚ} {z : Int}, 0 < real →
          (∀ w, want = some w → 0 < w) → want.getD real = z → 0 < z := by
        intro want real z hreal hwant hz
        have hzq : (0 : ℚ) < z := by
          rw [← hz]
          cases want with
          | none => exact hreal
          | some w => exact hwant w rfl
        exact_mod_cast hzq
      have hsw' : o.w.getD n.w = (s.w : ℚ) := hsw
      have hsh' : o.h.getD n.h = (s.h : ℚ) := hsh
      rw [hsw', hsh']
      exact ⟨if_pos ⟨hpos hwq ho.1 hsw', hw⟩, if_pos ⟨hpos hhq ho.2 hsh', hh⟩⟩
  -- a machine drawn in its own size is scaled by one
  · rw [if_neg hstretched] at hsize
    have hnone : size = none := by
      cases size with
      | none => rfl
      | some s => cases hsize
    have hsame : ∀ {want : Option ℚ} {real : ℚ}, want.any (· ≠ real) = false →
        want.getD real = real := by
      intro want real hany
      cases want with
      | none => rfl
      | some w => simpa using hany
    rw [isStretched_eq hunion, Bool.not_eq_true] at hstretched
    obtain ⟨hsw, hsh⟩ := Bool.or_eq_false_iff.mp hstretched
    have hsw' : o.w.getD (n.w : ℚ) = n.w := hsame hsw
    have hsh' : o.h.getD (n.h : ℚ) = n.h := hsame hsh
    rw [hnone, hsw', hsh', div_self hwq.ne', div_self hhq.ne']
    exact ⟨rfl, rfl⟩

/-- The editor draws a machine where the server has it. -/
theorem deskRects_eq {ms : List GeserDesk.Rect} (hms : GeserDesk.RealMonitors ms) {o : Placement}
    (ho : o.Positive) {p : Point} (hx : o.x = p.x) (hy : o.y = p.y) {size : Option Size}
    (hsize : deskSize (ms.map ofRect) o = size.map ofSize) :
    deskRects (ms.map ofRect) o
      = (ms.map (Frame.new p (GeserDesk.Rect.unionAll ms) size).deskRect).map ofRect := by
  obtain ⟨n, hn⟩ := exists_unionAll hms.1
  have hreal := unionAll_real hms.2 hn
  have hunion := union_of_unionAll hn
  obtain ⟨hsx, hsy⟩ := frame_factors hn hreal ho hsize p
  have hfx : 0 < factor o.w n.w := hsx ▸ (Frame.new_pos p (some n) size).1
  have hfy : 0 < factor o.h n.h := hsy ▸ (Frame.new_pos p (some n) size).2
  have hbase : (Frame.new p (some n) size).origin = p
      ∧ (Frame.new p (some n) size).base = ⟨n.x, n.y⟩ := by
    cases size <;> exact ⟨rfl, rfl⟩
  have hu := isUnion_of_union hunion
  rw [deskRects, hunion, hn]
  dsimp only
  rw [List.map_map, List.map_map]
  refine List.map_congr_left fun m hm => ?_
  have hleft : n.x ≤ m.x := by
    have hle : (n.x : ℚ) ≤ m.x := hu.left.2 ⟨ofRect m, List.mem_map_of_mem hm, rfl⟩
    exact_mod_cast hle
  have htop : n.y ≤ m.y := by
    have hle : (n.y : ℚ) ≤ m.y := hu.top.2 ⟨ofRect m, List.mem_map_of_mem hm, rfl⟩
    exact_mod_cast hle
  obtain ⟨hmw, hmh⟩ := hms.2 m hm
  have hxl := edge_eq p.x hleft hfx
  have hxr := edge_eq p.x (by omega : n.x ≤ m.x + m.w) hfx
  have hyt := edge_eq p.y htop hfy
  have hyb := edge_eq p.y (by omega : n.y ≤ m.y + m.h) hfy
  rw [Int.cast_add] at hxr hyb
  simp only [Function.comp_apply, ofRect, Frame.deskRect, Frame.toDesk, hbase, hsx, hsy, hx, hy,
    GeserDesk.Rect.left, GeserDesk.Rect.top, GeserDesk.Rect.right, GeserDesk.Rect.bottom, hxl, hxr,
    hyt, hyb, Int.cast_sub]

/-! ## Overlaps

The editor's overlap of two rectangles is the server's, and so is the overlap of two machines. -/

/-- On whole rectangles the two tests of overlap agree. -/
theorem hit_ofRect (a b : GeserDesk.Rect) : hit (ofRect a) (ofRect b) = intersects a b := by
  have hlt : ∀ v b e : Int, ((v : ℚ) < b + e) ↔ v < b + e := by
    intro v b e
    exact_mod_cast Iff.rfl
  rw [Bool.eq_iff_iff, intersects_iff]
  simp only [hit, ofRect, hlt, Bool.and_eq_true, decide_eq_true_eq, GeserDesk.Rect.left,
    GeserDesk.Rect.top, GeserDesk.Rect.right, GeserDesk.Rect.bottom]

/-- The first overlap the server finds is among the ones the editor does. -/
theorem firstOverlap_eq_none_iff (desk : List (String × List GeserDesk.Rect)) :
    firstOverlap desk = none ↔ hitPairs (desk.map fun e => (e.1, e.2.map ofRect)) = [] := by
  induction desk with
  | nil => exact iff_of_true rfl rfl
  | cons a rest ih =>
    have hany : ∀ b : String × List GeserDesk.Rect,
        ((a.2.map ofRect).any fun x => (b.2.map ofRect).any fun y => hit x y)
          = a.2.any fun x => b.2.any fun y => intersects x y := by
      intro b
      simp only [List.any_map, Function.comp_def, hit_ofRect]
    have hnone : ((rest.map fun e => (e.1, e.2.map ofRect)).filter fun b =>
        (a.2.map ofRect).any fun x => b.2.any fun y => hit x y) = []
        ↔ (rest.find? fun b => a.2.any fun x => b.2.any fun y => intersects x y) = none := by
      rw [List.filter_eq_nil_iff, List.find?_eq_none, List.forall_mem_map]
      simp only [hany]
    rw [List.map_cons, hitPairs, List.append_eq_nil_iff, List.map_eq_nil_iff, hnone, ← ih,
      firstOverlap]
    cases rest.find? fun b => a.2.any fun x => b.2.any fun y => intersects x y with
    | none => simp
    | some b => simp

/-- Nothing is marked if and only if no two machines have rectangles that hit. -/
theorem overlapping_eq_nil_iff (screens : List Placed) (draft : String → Placement) :
    overlapping screens draft = []
      ↔ hitPairs (screens.map fun s => (s.name, deskRects s.monitors (draft s.name))) = [] := by
  have hkept : ∀ (pairs : List (String × String)) (bad : List String), bad ≠ [] →
      pairs.foldl (fun bad p => (bad.insert p.1).insert p.2) bad ≠ [] := by
    intro pairs
    induction pairs with
    | nil => exact fun bad h => h
    | cons p pairs ih =>
      intro bad _
      refine ih _ (List.ne_nil_of_mem (a := p.2) ?_)
      exact List.mem_insert_self
  rw [overlapping]
  cases hitPairs (screens.map fun s => (s.name, deskRects s.monitors (draft s.name))) with
  | nil => exact iff_of_true rfl rfl
  | cons p pairs =>
    refine iff_of_false ?_ (List.cons_ne_nil _ _)
    exact hkept pairs _ (List.ne_nil_of_mem (a := p.2) List.mem_insert_self)

/-! ## The request -/

/-- What is sent names the machines shown and no others, each with its part. -/
theorem save_spec {draft : String → Placement} {screens : List Placed}
    (hone : ∀ s ∈ screens, ∀ s' ∈ screens, s.name = s'.name → s = s')
    {requested : Dict String Point} {resized : Dict String (Option Size)}
    (h : save draft screens = some (requested, resized)) :
    (∀ s ∈ screens, ∃ p size, saveScreen draft s = some (p, size)
      ∧ requested.get? s.name = some p ∧ resized.get? s.name = some size)
    ∧ ∀ name, name ∉ screens.map (·.name) →
      requested.get? name = none ∧ resized.get? name = none := by
  -- on the screens from the last one, as it is put last
  induction screens using List.reverseRecOn generalizing requested resized with
  | nil =>
    cases h
    exact ⟨fun s hs => absurd hs List.not_mem_nil,
      fun name _ => ⟨Dict.get?_empty name, Dict.get?_empty name⟩⟩
  -- the screens before it were saved, and then it
  | append_singleton screens last ih =>
    rw [save, List.foldlM_append] at h
    obtain ⟨⟨requested₀, resized₀⟩, h₀, h⟩ := Option.bind_eq_some_iff.mp h
    rw [List.foldlM_cons] at h
    obtain ⟨sent, hlast, h⟩ := Option.bind_eq_some_iff.mp h
    obtain ⟨⟨p, size⟩, hpart, rfl⟩ := Option.map_eq_some_iff.mp hlast
    cases h
    obtain ⟨hin, hout⟩ := ih (fun s hs s' hs' => hone s (List.mem_append_left _ hs) s'
      (List.mem_append_left _ hs')) h₀
    -- what is asked of a screen: of the last one, or of one before it
    constructor
    · intro s hs
      by_cases hname : s.name = last.name
      · have heq : s = last := hone s hs last (by simp) hname
        refine ⟨p, size, heq ▸ hpart, ?_, ?_⟩ <;> rw [Dict.get?_put, if_pos hname]
      · have hmem : s ∈ screens := by
          rcases List.mem_append.mp hs with hs | hs
          · exact hs
          · exact absurd (List.mem_singleton.mp hs ▸ rfl) hname
        obtain ⟨p', size', hpart', hp', hsize'⟩ := hin s hmem
        refine ⟨p', size', hpart', ?_, ?_⟩
        · rw [Dict.get?_put, if_neg hname, hp']
        · rw [Dict.get?_put, if_neg hname, hsize']
    -- a name of none of them is asked nothing
    · intro name hname
      rw [List.map_append, List.mem_append, not_or] at hname
      obtain ⟨hr, hs⟩ := hout name hname.1
      have hne : name ≠ last.name := by simpa using hname.2
      exact ⟨by rw [Dict.get?_put, if_neg hne, hr], by rw [Dict.get?_put, if_neg hne, hs]⟩

end Editor

/-! ## The check

What `validate` looks at comes down to the range of the numbers and the overlap of the drawn
rectangles. On what the editor sends, its answer about overlaps is the editor's own. -/

/-- Every coordinate sent is within the server's bounds, and so is every size. -/
def InRange (requested : Dict String Point) (resized : Dict String (Option Size)) : Prop :=
  (∀ name p, requested.get? name = some p → |p.x| ≤ MAX_COORD ∧ |p.y| ≤ MAX_COORD)
    ∧ ∀ name s, resized.get? name = some (some s) → s.w ≤ MAX_COORD ∧ s.h ≤ MAX_COORD

/-- `i32::abs` gives the smallest of all back; of any other the absolute value. -/
theorem absI32_eq {v : Int} (h : v ≠ -2147483648) : absI32 v = |v| := by
  rw [absI32, if_neg h, Int.natCast_natAbs]

variable {M : Type} {d : DeskState} {hub : Hub M} {requested : Dict String Point}
  {resized : Dict String (Option Size)}

/-- The positions asked for are taken exactly if all of them are within the bounds. -/
theorem nextPositions_isOk_iff {shown : Dict String Point}
    (hshown : ∀ name p, requested.get? name = some p → shown.get? name ≠ none)
    (hmin : ∀ name p, requested.get? name = some p → p.x ≠ -2147483648 ∧ p.y ≠ -2147483648) :
    (∃ next, nextPositions shown requested = .ok next)
      ↔ ∀ name p, requested.get? name = some p → |p.x| ≤ MAX_COORD ∧ |p.y| ≤ MAX_COORD := by
  constructor
  · rintro ⟨next, hnext⟩ name p hp
    obtain ⟨acc, acc', hstep⟩ := exists_ok_of_foldlM hnext (mem_inNameOrder.mpr hp)
    simp only at hstep
    split at hstep
    · cases hstep
    split at hstep
    · cases hstep
    next hfits =>
    obtain ⟨hx, hy⟩ := hmin name p hp
    rw [absI32_eq hx, absI32_eq hy, not_or, not_lt, not_lt] at hfits
    exact hfits
  · intro hfits
    refine foldlM_goes (P := fun acc : Dict String Point =>
      ∀ name p, requested.get? name = some p → acc.get? name ≠ none) ?_ hshown
    rintro acc hacc ⟨name, p⟩ hmem
    have hp := mem_inNameOrder.mp hmem
    obtain ⟨hx, hy⟩ := hmin name p hp
    have hknown : ¬ (acc.get? name).isNone = true := by
      rw [Option.isNone_iff_eq_none]
      exact hacc name p hp
    have hin : ¬ (MAX_COORD < absI32 p.x ∨ MAX_COORD < absI32 p.y) := by
      rw [absI32_eq hx, absI32_eq hy, not_or, not_lt, not_lt]
      exact hfits name p hp
    refine ⟨acc.put name p, by simp only [if_neg hknown, if_neg hin], fun k q hq => ?_⟩
    rw [Dict.get?_put]
    split
    · simp
    · exact hacc k q hq

/-- The sizes asked for are taken exactly if all of them are within the bounds. -/
theorem nextSizes_isOk_iff {views : List ScreenView} {sizes : Dict String Size}
    (hshown : ∀ name asked, resized.get? name = some asked →
      ∃ view, views.find? (·.name = name) = some view)
    (hleast : ∀ name s, resized.get? name = some (some s) → MIN_SIZE ≤ s.w ∧ MIN_SIZE ≤ s.h)
    (hunlike : ∀ name s view, resized.get? name = some (some s) →
      views.find? (·.name = name) = some view → (s.w, s.h) ≠ deskSize view.monitors none) :
    (∃ next, nextSizes views sizes resized = .ok next)
      ↔ ∀ name s, resized.get? name = some (some s) → s.w ≤ MAX_COORD ∧ s.h ≤ MAX_COORD := by
  constructor
  · rintro ⟨next, hnext⟩ name s hs
    obtain ⟨acc, acc', hstep⟩ := exists_ok_of_foldlM hnext (mem_inNameOrder.mpr hs)
    obtain ⟨view, hview⟩ := hshown name _ hs
    simp only [hview] at hstep
    rw [if_neg (hunlike name s view hs hview)] at hstep
    split at hstep
    · cases hstep
    next hfits =>
    rw [not_or, not_or, not_or, not_lt, not_lt, not_lt, not_lt] at hfits
    exact hfits.2.2
  · intro hfits
    refine foldlM_goes (P := fun _ => True) ?_ trivial
    rintro acc - ⟨name, asked⟩ hmem
    have hasked := mem_inNameOrder.mp hmem
    obtain ⟨view, hview⟩ := hshown name asked hasked
    cases asked with
    | none => exact ⟨acc.drop name, by simp only [hview], trivial⟩
    | some s =>
      obtain ⟨hw, hh⟩ := hleast name s hasked
      obtain ⟨hw', hh'⟩ := hfits name s hasked
      have hin : ¬ (s.w < MIN_SIZE ∨ s.h < MIN_SIZE ∨ MAX_COORD < s.w ∨ MAX_COORD < s.h) := by
        omega
      refine ⟨acc.put name s, ?_, trivial⟩
      simp only [hview, if_neg (hunlike name s view hasked hview), if_neg hin]

/-- The check finds an overlap only once it has taken the positions and the sizes. -/
theorem DeskState.validate_overlap_iff : (∃ a b, d.validate hub requested resized
      = .error (.overlap a b))
    ↔ ∃ next sizes, nextPositions ((d.screens hub).1.foldl (fun m v => m.put v.name v.origin) ∅)
        requested = .ok next
      ∧ nextSizes (d.screens hub).1 d.sizes resized = .ok sizes
      ∧ firstOverlap (((d.screens hub).1.filter (·.connected)).map fun v =>
        (v.name, v.monitors.map (v.frame next sizes).deskRect)) ≠ none := by
  simp only [validate, bind, Except.bind]
  -- the checks before it answer with errors of their own, so an overlap comes only from the last
  cases hnext : nextPositions ((d.screens hub).1.foldl (fun m v => m.put v.name v.origin) ∅)
      requested with
  | error e =>
    constructor
    · rintro ⟨a, b, h⟩
      cases h
      obtain ⟨⟨name, p⟩, -, acc, hstep⟩ := exists_error_of_foldlM hnext
      simp only at hstep
      split at hstep
      · cases hstep
      split at hstep <;> cases hstep
    · rintro ⟨next, sizes, h, -⟩
      cases h
  | ok next =>
    -- the sizes are looked at next
    cases hsizes : nextSizes (d.screens hub).1 d.sizes resized with
    | error e =>
      constructor
      · rintro ⟨a, b, h⟩
        cases h
        obtain ⟨⟨name, asked⟩, -, acc, hstep⟩ := exists_error_of_foldlM hsizes
        simp only at hstep
        split at hstep
        · cases hstep
        cases asked with
        | none => cases hstep
        | some s =>
          simp only at hstep
          split at hstep
          · cases hstep
          split at hstep <;> cases hstep
      · rintro ⟨next', sizes, -, h, -⟩
        cases h
    | ok sizes =>
      -- the drawn rectangles of the connected machines, two by two
      cases hfirst : firstOverlap (((d.screens hub).1.filter (·.connected)).map fun v =>
          (v.name, v.monitors.map (v.frame next sizes).deskRect)) with
      | none =>
        constructor
        · rintro ⟨a, b, h⟩
          simp only [hfirst] at h
          cases h
        · rintro ⟨next', sizes', h, h', hne⟩
          cases h
          cases h'
          exact absurd hfirst hne
      | some pair =>
        refine iff_of_true ⟨pair.1, pair.2, ?_⟩ ⟨next, sizes, rfl, rfl, ?_⟩
        · simp only [hfirst]
        · rw [hfirst]
          simp

namespace Editor

/-- The machines the layout is about: those that are connected. -/
def connectedViews (d : DeskState) (hub : Hub M) : List ScreenView :=
  (d.screens hub).1.filter (·.connected)

/-- They as the editor has them. Its list also holds machines that are turned off and not connected,
so that they can be turned on again; with one of those in it the editor's `overlapping` may mark
what `validate`, which looks at the connected ones alone, would take. -/
def shown (d : DeskState) (hub : Hub M) : List Placed := (connectedViews d hub).map ofView

/-- No size, or a width and a height of the least a machine may be shrunk to at least. -/
def Placement.Fits (o : Placement) : Prop :=
  o.w = none ∧ o.h = none
    ∨ ∃ w h, o.w = some w ∧ o.h = some h ∧ MIN_DESK_SIZE ≤ w ∧ MIN_DESK_SIZE ≤ h

/-- A size no less than the least is positive. -/
theorem Placement.Fits.positive {o : Placement} (h : o.Fits) : o.Positive := by
  obtain ⟨hw, hh⟩ | ⟨w, h, hw, hh, hlew, hleh⟩ := h
  · constructor
    · intro w' hw'
      rw [hw] at hw'
      cases hw'
    · intro h' hh'
      rw [hh] at hh'
      cases hh'
  · constructor
    · intro w' hw'
      rw [hw] at hw'
      cases hw'
      exact min_pos.trans_le hlew
    · intro h' hh'
      rw [hh] at hh'
      cases hh'
      exact min_pos.trans_le hleh

/-- A size that is sent is not the machine's real one, and not below the least. -/
theorem sent_size {v : ScreenView} (hv : GeserDesk.RealMonitors v.monitors) {o : Placement}
    (ho : o.Fits) {s : Size} (hsize : deskSize (v.monitors.map ofRect) o = some (ofSize s)) :
    (s.w, s.h) ≠ GeserDesk.deskSize v.monitors none ∧ MIN_SIZE ≤ s.w ∧ MIN_SIZE ≤ s.h := by
  obtain ⟨n, hn⟩ := exists_unionAll hv.1
  have hunion := union_of_unionAll hn
  have hnatural : GeserDesk.deskSize v.monitors none = (n.w, n.h) := by
    simp only [GeserDesk.deskSize, hn]
  rw [deskSize, hunion] at hsize
  split at hsize
  · next hstretched =>
    obtain ⟨hsw, hsh⟩ := Prod.mk.inj (Option.some.inj hsize)
    rw [isStretched_eq hunion] at hstretched
    obtain ⟨hw, hh⟩ | ⟨w, h, hw, hh, hlew, hleh⟩ := ho
    · rw [hw, hh] at hstretched
      cases hstretched
    · rw [hw] at hsw
      rw [hh] at hsh
      have hsw' : w = s.w := hsw
      have hsh' : h = s.h := hsh
      have hmin : MIN_DESK_SIZE = (MIN_SIZE : Int) := by norm_num [MIN_DESK_SIZE, MIN_SIZE]
      rw [hmin, hsw'] at hlew
      rw [hmin, hsh'] at hleh
      refine ⟨?_, by exact_mod_cast hlew, by exact_mod_cast hleh⟩
      intro hsame
      rw [hnatural] at hsame
      obtain ⟨hw', hh'⟩ := Prod.mk.inj hsame
      rw [hw, hh, hsw', hsh', hw', hh'] at hstretched
      simp [ofRect] at hstretched
  · cases hsize

/-- A request says of every machine that is connected where it is drafted and with what size, and
of no other machine anything. -/
structure Sent (d : DeskState) (hub : Hub M) (draft : String → Placement)
    (requested : Dict String Point) (resized : Dict String (Option Size)) : Prop where
  asked : ∀ v ∈ connectedViews d hub, ∃ p size, requested.get? v.name = some p
    ∧ resized.get? v.name = some size ∧ (draft v.name).x = p.x ∧ (draft v.name).y = p.y
    ∧ deskSize (v.monitors.map ofRect) (draft v.name) = size.map ofSize
  others : ∀ name, (∀ v ∈ connectedViews d hub, v.name ≠ name) →
    requested.get? name = none ∧ resized.get? name = none

variable {draft : String → Placement}

/-- Names being distinct, a view is found under its name. -/
theorem find_view {v : ScreenView} (hv : v ∈ connectedViews d hub) :
    (d.screens hub).1.find? (·.name = v.name) = some v :=
  d.screens_find hub (List.mem_filter.mp hv).1

/-- The request a save makes says of every machine shown where it is drafted and how large. -/
theorem sent_of_save (hsave : save draft (shown d hub) = some (requested, resized)) :
    Sent d hub draft requested resized := by
  have hone : ∀ s ∈ shown d hub, ∀ s' ∈ shown d hub, s.name = s'.name → s = s' := by
    intro s hs s' hs' hname
    obtain ⟨v, hv, rfl⟩ := List.mem_map.mp hs
    obtain ⟨v', hv', rfl⟩ := List.mem_map.mp hs'
    rw [DeskState.screens_unique (List.mem_filter.mp hv).1 (List.mem_filter.mp hv').1 hname]
  obtain ⟨hin, hout⟩ := save_spec hone hsave
  constructor
  · intro v hv
    obtain ⟨p, size, hpart, hp, hsize⟩ := hin (ofView v) (List.mem_map_of_mem hv)
    obtain ⟨hx, hy, hdesk⟩ := saveScreen_spec hpart
    exact ⟨p, size, hp, hsize, hx, hy, hdesk⟩
  · intro name hname
    refine hout name fun hmem => ?_
    obtain ⟨s, hs, hsname⟩ := List.mem_map.mp hmem
    obtain ⟨v, hv, rfl⟩ := List.mem_map.mp hs
    exact hname v hv hsname

namespace Sent

variable (h : Sent d hub draft requested resized)

include h

/-- What is asked for is asked of a machine that is connected. -/
theorem of_position {name : String} {p : Point} (hp : requested.get? name = some p) :
    ∃ v ∈ connectedViews d hub, v.name = name ∧ (draft name).x = p.x ∧ (draft name).y = p.y := by
  by_contra hnone
  have hout := h.others name fun v hv hvn => hnone ?_
  · rw [hp] at hout
    cases hout.1
  · obtain ⟨p', size, hp', -, hx, hy, -⟩ := h.asked v hv
    rw [hvn, hp] at hp'
    cases hp'
    exact ⟨v, hv, hvn, hvn ▸ hx, hvn ▸ hy⟩

/-- A size it asks for is the drafted one of a machine shown. -/
theorem of_size {name : String} {size : Option Size} (hsize : resized.get? name = some size) :
    ∃ v ∈ connectedViews d hub, v.name = name
      ∧ deskSize (v.monitors.map ofRect) (draft name) = size.map ofSize := by
  by_contra hnone
  have hout := h.others name fun v hv hvn => hnone ?_
  · rw [hsize] at hout
    cases hout.2
  · obtain ⟨p, size', -, hsize', -, -, hdesk⟩ := h.asked v hv
    rw [hvn, hsize] at hsize'
    cases hsize'
    exact ⟨v, hv, hvn, hvn ▸ hdesk⟩

/-- Where no coordinate is the least `i32`, the positions pass if and only if each is within the
limit. -/
theorem positions_iff (hmin : ∀ v ∈ connectedViews d hub,
      (draft v.name).x ≠ -2147483648 ∧ (draft v.name).y ≠ -2147483648) :
    (∃ next, nextPositions ((d.screens hub).1.foldl (fun m v => m.put v.name v.origin) ∅) requested
        = .ok next)
      ↔ ∀ name p, requested.get? name = some p → |p.x| ≤ MAX_COORD ∧ |p.y| ≤ MAX_COORD := by
  apply nextPositions_isOk_iff
  · intro name p hp
    obtain ⟨v, hv, rfl, -⟩ := h.of_position hp
    have hone : ∀ v ∈ (d.screens hub).1, ∀ w ∈ (d.screens hub).1, v.name = w.name → v = w :=
      fun v hv w hw => DeskState.screens_unique hv hw
    rw [(DeskState.get?_shown _ hone).1 (List.mem_filter.mp hv).1]
    simp
  · intro name p hp
    obtain ⟨v, hv, rfl, hx, hy⟩ := h.of_position hp
    obtain ⟨hminx, hminy⟩ := hmin v hv
    rw [hx] at hminx
    rw [hy] at hminy
    exact ⟨by exact_mod_cast hminx, by exact_mod_cast hminy⟩

/-- The sizes pass if and only if each is within the limit. -/
theorem sizes_iff (hreal : ∀ v ∈ connectedViews d hub, GeserDesk.RealMonitors v.monitors)
    (hfits : ∀ v ∈ connectedViews d hub, (draft v.name).Fits) :
    (∃ next, nextSizes (d.screens hub).1 d.sizes resized = .ok next)
      ↔ ∀ name s, resized.get? name = some (some s) → s.w ≤ MAX_COORD ∧ s.h ≤ MAX_COORD := by
  apply nextSizes_isOk_iff
  · intro name asked hasked
    obtain ⟨v, hv, rfl, -⟩ := h.of_size hasked
    exact ⟨v, find_view hv⟩
  · intro name s hs
    obtain ⟨v, hv, rfl, hdesk⟩ := h.of_size hs
    exact (sent_size (hreal v hv) (hfits v hv) hdesk).2
  · intro name s view hs hview
    obtain ⟨v, hv, rfl, hdesk⟩ := h.of_size hs
    rw [find_view hv] at hview
    have hvv : v = view := Option.some.inj hview
    rw [← hvv]
    exact (sent_size (hreal v hv) (hfits v hv) hdesk).1

/-- A machine is where the request has it, with the size it has in the request. -/
theorem frame_eq (hreal : ∀ v ∈ connectedViews d hub, GeserDesk.RealMonitors v.monitors)
    (hfits : ∀ v ∈ connectedViews d hub, (draft v.name).Fits) {next : Dict String Point}
    (hnext : nextPositions ((d.screens hub).1.foldl (fun m v => m.put v.name v.origin) ∅) requested
      = .ok next) {sizes : Dict String Size}
    (hsizes : nextSizes (d.screens hub).1 d.sizes resized = .ok sizes) {v : ScreenView}
    (hv : v ∈ connectedViews d hub) {p : Point} (hp : requested.get? v.name = some p)
    {size : Option Size} (hsize : resized.get? v.name = some size) :
    v.frame next sizes = Frame.new p (GeserDesk.Rect.unionAll v.monitors) size := by
  have hpos := DeskState.nextPositions_screen hnext (List.mem_filter.mp hv).1
  have hkept := nextSizes_get? hsizes (find_view hv)
  have hasked : sizeAsked v size = size := by
    cases hs : size with
    | none => rfl
    | some s =>
      rw [hs] at hsize
      obtain ⟨v', hv', hname, hdesk⟩ := h.of_size hsize
      have hvv : v' = v :=
        DeskState.screens_unique (List.mem_filter.mp hv').1 (List.mem_filter.mp hv).1 hname
      have hunlike := (sent_size (hreal v hv) (hfits v hv) (hvv ▸ hdesk)).1
      simp [sizeAsked, hunlike]
  rw [hsize] at hkept
  have hkept' : sizes.get? v.name = size := hkept.trans hasked
  rw [ScreenView.frame, hpos, hp, hkept']
  rfl

end Sent

end Editor

end GeserDesk
