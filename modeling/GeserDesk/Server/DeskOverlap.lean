import GeserDesk.Server.DeskState
import GeserDesk.Server.Inside

/-!
# Where an accepted layout gives the cursor two places to go

The check of `validate` compares the monitors with their edges rounded to the nearest desk pixel;
the router asks, for a desk point, which machine's own point lies under it. The two agree on a
machine that is not stretched. On a stretched one the pixels the router gives a monitor are the
ones from its edges rounded *up*, so an edge that falls less than half a pixel into a desk pixel
has that pixel on both sides of it.
-/

namespace GeserDesk

/-! ## The pixels of a monitor, forwards and back

A point on the desk is taken to a pixel and back by rounding. Two monitors share a pixel when
their rounded rectangles meet. -/

namespace Frame

/-- A ratio is positive. -/
theorem ratio_pos (want have_ : Int) : 0 < ratio want have_ := by
  unfold ratio
  split
  · next h =>
    have hw : (0 : ℚ) < want := by exact_mod_cast h.1
    have hh : (0 : ℚ) < have_ := by exact_mod_cast h.2
    exact div_pos hw hh
  · exact one_pos

/-- Both factors of a frame are positive. -/
theorem new_pos (origin : Point) (bounds : Option Rect) (size : Option Size) :
    0 < (new origin bounds size).sx ∧ 0 < (new origin bounds size).sy := by
  cases size with
  | none => exact ⟨one_pos, one_pos⟩
  | some s => exact ⟨ratio_pos _ _, ratio_pos _ _⟩

/-- A monitor as it lies on the desk, its edges rounded up to whole pixels. -/
def roundedUp (f : Frame) (m : Rect) : Rect :=
  let up (v base origin : Int) (s : ℚ) : Int := origin + base + ⌈((v - base : Int) : ℚ) * s⌉
  let l := up m.left f.base.x f.origin.x f.sx
  let t := up m.top f.base.y f.origin.y f.sy
  ⟨l, t, up m.right f.base.x f.origin.x f.sx - l, up m.bottom f.base.y f.origin.y f.sy - t⟩

/-- A monitor whose edges all fall on whole desk pixels. -/
def Whole (f : Frame) (m : Rect) : Prop := f.deskRect m = f.roundedUp m

instance (f : Frame) (m : Rect) : Decidable (f.Whole m) := inferInstanceAs (Decidable (_ = _))

/-- A machine that is not stretched has every edge on a whole pixel. -/
theorem whole_of_unstretched (origin : Point) (bounds : Option Rect) (m : Rect) :
    (new origin bounds none).Whole m := by
  simp only [Whole, deskRect, roundedUp, toDesk, new, mul_one, roundHalfAway_int, Int.ceil_intCast]

end Frame

/-- Two rectangles have a pixel in common. -/
def sharePixel (a b : Rect) : Bool :=
  decide (max a.left b.left < min a.right b.right)
    && decide (max a.top b.top < min a.bottom b.bottom)

/-- Rectangles with a pixel in common intersect, as the check has it. -/
theorem intersects_of_sharePixel {a b : Rect} (h : sharePixel a b = true) :
    intersects a b = true := by
  simp only [sharePixel, intersects, Bool.and_eq_true, decide_eq_true_eq] at *
  omega

/-! ## Machines of a layout

An accepted layout has every point on one machine at most, exactly when the rectangles rounded up
are apart too. -/

namespace ScreenView

/-- The desk point `p` is on a monitor of the machine, as the router locates it. -/
def covers (v : ScreenView) (positions : Dict String Point) (sizes : Dict String Size)
    (p : Point) : Bool :=
  v.monitors.any fun m => m.contains ((v.frame positions sizes).toLocal p)

/-- A router with the machine's frame and monitors locates a point on it just there. -/
theorem locateOn_isSome (v : ScreenView) {positions : Dict String Point} {sizes : Dict String Size}
    {c : Core} (hframe : c.frame v.name = v.frame positions sizes)
    (hmons : c.monitorsOf v.name = v.monitors) (p : Point) :
    (c.locateOn p v.name).isSome = v.covers positions sizes p := by
  rw [Core.locateOn, hframe, hmons, covers]
  cases v.monitors.any fun m => m.contains ((v.frame positions sizes).toLocal p) <;> rfl

end ScreenView

namespace DeskState

variable {M : Type} (d : DeskState)

/-- How a machine shown as `v` is asked to map onto the desk. -/
def askedFrame (requested : Dict String Point) (resized : Dict String (Option Size))
    (v : ScreenView) : Frame :=
  Frame.new ((requested.get? v.name).getD v.origin) (Rect.unionAll v.monitors)
    (match resized.get? v.name with
      | some asked => sizeAsked v asked
      | none => d.sizes.get? v.name)

/-- No monitor of a connected machine has a pixel in common with one of another, the edges of
each rounded up to whole desk pixels where it is asked to be. -/
def RoundedUpApart (hub : Hub M) (requested : Dict String Point)
    (resized : Dict String (Option Size)) : Prop :=
  ∀ a ∈ (d.screens hub).1, ∀ b ∈ (d.screens hub).1, a.connected = true → b.connected = true →
    a.name ≠ b.name → ∀ m ∈ a.monitors, ∀ n ∈ b.monitors,
      sharePixel ((d.askedFrame requested resized a).roundedUp m)
        ((d.askedFrame requested resized b).roundedUp n) = false

instance (hub : Hub M) (requested : Dict String Point) (resized : Dict String (Option Size)) :
    Decidable (d.RoundedUpApart hub requested resized) := by
  unfold RoundedUpApart; infer_instance

variable {d} {hub : Hub M} {requested positions : Dict String Point}
  {resized : Dict String (Option Size)} {sizes : Dict String Size}

/-- A layout that passes maps every machine shown onto the desk the way it was asked to. -/
theorem frame_eq (h : d.validate hub requested resized = .ok (positions, sizes)) {v : ScreenView}
    (hv : v ∈ (d.screens hub).1) : v.frame positions sizes = d.askedFrame requested resized v := by
  obtain ⟨hpos, hsize⟩ := validate_ok h hv
  rw [ScreenView.frame, askedFrame, hpos, hsize]
  rfl

/-- What the check does establish: no two monitors of different connected machines intersect,
their edges rounded to the nearest desk pixel. -/
theorem accepted_apart (h : d.validate hub requested resized = .ok (positions, sizes))
    {a b : ScreenView} (ha : a ∈ (d.screens hub).1) (hb : b ∈ (d.screens hub).1)
    (hca : a.connected = true) (hcb : b.connected = true) (hab : a.name ≠ b.name)
    {m n : Rect} (hm : m ∈ a.monitors) (hn : n ∈ b.monitors) :
    intersects ((d.askedFrame requested resized a).deskRect m)
      ((d.askedFrame requested resized b).deskRect n) = false := by
  have hpair := List.pairwise_map.mp (firstOverlap_none (validate_eq_ok h).2.2)
  have hmem : ∀ {v}, v ∈ (d.screens hub).1 → v.connected = true →
      v ∈ (d.screens hub).1.filter (·.connected) := fun hv hc => List.mem_filter.mpr ⟨hv, hc⟩
  have hsymm : ∀ x y : Rect, intersects x y = intersects y x := by
    intro x y
    rw [Bool.eq_iff_iff]
    simp only [intersects, Bool.and_eq_true, decide_eq_true_eq]
    omega
  rw [← frame_eq h ha, ← frame_eq h hb]
  let Apart (a b : ScreenView) : Prop := a.name ≠ b.name →
    ∀ x ∈ a.monitors.map (a.frame positions sizes).deskRect,
      ∀ y ∈ b.monitors.map (b.frame positions sizes).deskRect, intersects x y = false
  have : Std.Symm Apart :=
    ⟨fun a b hR hba x hx y hy => (hsymm x y).trans (hR hba.symm y hy x hx)⟩
  have hforall : ∀ ⦃a⦄, a ∈ _ → ∀ ⦃b⦄, b ∈ _ → Apart a b :=
    List.Pairwise.forall_of_forall (fun v _ hv => absurd rfl hv)
      (hpair.imp fun {a b} hR => show Apart a b from fun _ => hR)
  exact hforall (hmem ha hca) (hmem hb hcb) hab _ (List.mem_map_of_mem hm) _
    (List.mem_map_of_mem hn)

/-- A layout all of whose edges fall on whole desk pixels is checked as it is routed. -/
theorem roundedUpApart_of_whole (h : d.validate hub requested resized = .ok (positions, sizes))
    (hwhole : ∀ v ∈ (d.screens hub).1, v.connected = true →
      ∀ m ∈ v.monitors, (d.askedFrame requested resized v).Whole m) :
    d.RoundedUpApart hub requested resized := by
  intro a ha b hb hca hcb hab m hm n hn
  have hapart := accepted_apart h ha hb hca hcb hab hm hn
  rw [hwhole a ha hca m hm, hwhole b hb hcb n hn] at hapart
  cases hshare : sharePixel ((d.askedFrame requested resized a).roundedUp m)
      ((d.askedFrame requested resized b).roundedUp n) with
  | false => rfl
  | true => rw [intersects_of_sharePixel hshare] at hapart; cases hapart

/-- Without stretching, a layout that passes has one place for every desk point. -/
theorem roundedUpApart_of_unstretched (h : d.validate hub requested resized = .ok (positions, sizes))
    (hnone : sizes = ∅) : d.RoundedUpApart hub requested resized := by
  refine roundedUpApart_of_whole h fun v hv _ m _ => ?_
  rw [← frame_eq h hv, ScreenView.frame, hnone, Dict.get?_empty]
  exact Frame.whole_of_unstretched _ _ _

/-- A server with a narrow monitor above a wide one. -/
def steppedDesk : DeskState where
  local_ := "a"
  localMonitors := [⟨0, 0, 1000, 500⟩, ⟨0, 500, 3000, 500⟩]
  layout := { screens := ["a", "b"] }

def oneClient : Hub ServerMsg where
  clients := (∅ : Dict String (Entry ServerMsg)).put "b" ⟨[], [⟨0, 0, 500, 500⟩]⟩

end DeskState

end GeserDesk
