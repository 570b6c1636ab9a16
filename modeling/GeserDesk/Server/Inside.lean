import GeserDesk.Lib.Best
import GeserDesk.Server.Router
import Mathlib.Tactic.Linarith

/-!
# Points on a monitor

Every way the router works out a point ends on one of the monitors it worked with, so long as
there is one and none of them is empty.
-/

namespace GeserDesk

namespace Rect

/-- A point is on a monitor just if it is between its sides. -/
theorem contains_iff (r : Rect) (p : Point) : r.contains p = true ↔
    (r.left ≤ p.x ∧ p.x < r.right) ∧ r.top ≤ p.y ∧ p.y < r.bottom := by
  simp only [contains, Bool.and_eq_true, decide_eq_true_eq, and_assoc]

/-- It covers a pixel at least. -/
def Real (r : Rect) : Prop := 0 < r.w ∧ 0 < r.h

instance (r : Rect) : Decidable r.Real := inferInstanceAs (Decidable (_ ∧ _))

/-- Clamping ends on the monitor. -/
theorem clamp_inside {r : Rect} (hr : r.Real) (p : Point) : r.contains (r.clamp p) = true := by
  obtain ⟨hw, hh⟩ := hr
  rw [contains_iff]
  simp only [clamp, left, right, top, bottom]
  omega

/-- A point inside is where it is clamped to. -/
theorem clamp_of_inside {r : Rect} {p : Point} (h : r.contains p = true) : r.clamp p = p := by
  rw [contains_iff] at h
  simp only [left, right, top, bottom] at h
  cases p
  simp only [clamp, left, right, top, bottom, Point.mk.injEq]
  simp only at h
  omega

/-- The middle of a monitor is on it. -/
theorem center_inside {r : Rect} (hr : r.Real) : r.contains r.center = true := by
  obtain ⟨hw, hh⟩ := hr
  rw [contains_iff]
  simp only [center, left, right, top, bottom]
  rw [Int.tdiv_eq_ediv_of_nonneg (by omega), Int.tdiv_eq_ediv_of_nonneg (by omega)]
  omega

end Rect

/-- A whole number is rounded to itself. -/
theorem roundHalfAway_int (z : Int) : roundHalfAway (z : ℚ) = z := by
  have hhalf : ⌊(1 / 2 : ℚ)⌋ = 0 := by norm_num
  have hneg : ⌈(-(1 / 2) : ℚ)⌉ = 0 := by norm_num
  unfold roundHalfAway
  split
  · rw [Int.floor_intCast_add, hhalf, add_zero]
  · rw [sub_eq_add_neg, Int.ceil_intCast_add, hneg, add_zero]

/-- There is a monitor, and none is empty. -/
def RealMonitors (ms : List Rect) : Prop := ms ≠ [] ∧ ∀ m ∈ ms, m.Real

instance (ms : List Rect) : Decidable (RealMonitors ms) := inferInstanceAs (Decidable (_ ∧ _))

/-- The point is on one of the monitors. -/
def OnMonitor (ms : List Rect) (p : Point) : Prop := ∃ m ∈ ms, m.contains p = true

instance (ms : List Rect) (p : Point) : Decidable (OnMonitor ms p) :=
  inferInstanceAs (Decidable (∃ m ∈ ms, _))

/-- The test over all monitors says that one of them contains the point. -/
theorem onMonitor_iff_any {ms : List Rect} {p : Point} :
    (ms.any fun m => m.contains p) = true ↔ OnMonitor ms p := List.any_eq_true

/-- A point is at no distance from itself. -/
theorem sqDist_self (p : Point) : sqDist p p = 0 := by
  unfold sqDist
  rw [Int.sub_self, Int.sub_self]
  rfl

/-- A point is at no distance from itself only. -/
theorem eq_of_sqDist_le_zero {p q : Point} (h : sqDist p q ≤ 0) : p = q := by
  have hx := mul_self_nonneg (p.x - q.x)
  have hy := mul_self_nonneg (p.y - q.y)
  unfold sqDist at h
  have hx₀ : (p.x - q.x) * (p.x - q.x) = 0 := by omega
  have hy₀ : (p.y - q.y) * (p.y - q.y) = 0 := by omega
  rcases Int.mul_eq_zero.mp hx₀ with hx | hx <;> rcases Int.mul_eq_zero.mp hy₀ with hy | hy <;>
    · cases p
      cases q
      simp only [Point.mk.injEq]
      dsimp only at hx hy
      omega

/-- The nearest point is a clamped one, and no clamped one is nearer. -/
theorem nearestPoint_spec {ms : List Rect} (hms : ms ≠ []) (p : Point) :
    ∃ m ∈ ms, nearestPoint p ms = m.clamp p
      ∧ ∀ m' ∈ ms, sqDist (m.clamp p) p ≤ sqDist (m'.clamp p) p := by
  have hne : ms.map (fun m => m.clamp p) ≠ [] := fun h => hms (List.map_eq_nil_iff.mp h)
  obtain ⟨b, hb, hof, hall⟩ : ∃ b ∈ ms.map (fun m => m.clamp p),
      Best.of (fun a b => sqDist a p < sqDist b p) (ms.map fun m => m.clamp p) = some b
        ∧ ∀ a ∈ ms.map (fun m => m.clamp p), ¬ sqDist a p < sqDist b p :=
    Best.of_spec (fun a b c => @Int.lt_trans (sqDist a p) (sqDist b p) (sqDist c p))
      (fun a => Int.lt_irrefl (sqDist a p)) hne
  obtain ⟨m, hm, rfl⟩ := List.mem_map.mp hb
  refine ⟨m, hm, ?_, fun m' hm' => Int.not_lt.mp (hall _ (List.mem_map_of_mem hm'))⟩
  have hnearest : nearestPoint p ms
      = (Best.of (fun a b => sqDist a p < sqDist b p) (ms.map fun m => m.clamp p)).getD p := by
    unfold nearestPoint Best.of
    congr 2
    funext best c
    cases best <;> rfl
  rw [hnearest, hof]
  rfl

/-- The nearest point is on a monitor. -/
theorem nearestPoint_inside {ms : List Rect} (hms : RealMonitors ms) (p : Point) :
    OnMonitor ms (nearestPoint p ms) := by
  obtain ⟨m, hm, heq, -⟩ := nearestPoint_spec hms.1 p
  exact ⟨m, hm, heq ▸ Rect.clamp_inside (hms.2 m hm) p⟩

/-- A point on a monitor is its own nearest one. -/
theorem nearestPoint_of_inside {ms : List Rect} {p : Point} (h : OnMonitor ms p) :
    nearestPoint p ms = p := by
  obtain ⟨m', hm', hin⟩ := h
  obtain ⟨m, hm, heq, hle⟩ := nearestPoint_spec (List.ne_nil_of_mem hm') p
  have hzero := hle m' hm'
  rw [Rect.clamp_of_inside hin, sqDist_self] at hzero
  rw [heq, eq_of_sqDist_le_zero hzero]

/-- Clamping with an inset ends on the monitor, in its middle where the inset leaves nothing. -/
theorem insetClamp_inside {r : Rect} (hr : r.Real) {inset : Int} (hinset : 0 ≤ inset)
    (p : Point) : r.contains (insetClamp p r inset) = true := by
  have hcenter := (Rect.contains_iff _ _).mp (Rect.center_inside hr)
  rw [Rect.contains_iff]
  simp only [Rect.left, Rect.right, Rect.top, Rect.bottom] at hcenter
  simp only [insetClamp, Rect.left, Rect.right, Rect.top, Rect.bottom]
  constructor
  · split <;> omega
  · split <;> omega

namespace Core

/-- A machine is found where it has a monitor. -/
theorem locate_spec {c : Core} {v : Point} {exclude next : String} {q : Point}
    (h : c.locate v exclude = some (next, q)) : next ≠ exclude
      ∧ (next = c.local_ ∨ (c.connected.get? next).isSome = true)
      ∧ q = (c.frame next).toLocal v ∧ OnMonitor (c.monitorsOf next) q := by
  rw [locate] at h
  obtain ⟨name, hmem, hname⟩ := List.exists_of_findSome?_eq_some h
  obtain ⟨hlisted, hne⟩ := List.mem_filter.mp hmem
  rw [locateOn] at hname
  split at hname
  · next hany =>
    rw [Option.some.injEq, Prod.mk.injEq] at hname
    obtain ⟨rfl, rfl⟩ := hname
    refine ⟨of_decide_eq_true hne, ?_, rfl, onMonitor_iff_any.mp hany⟩
    rcases List.mem_append.mp ((List.mem_insertionSort _).mp hlisted) with hkey | hself
    · exact .inr ((Dict.mem_keys_iff _ _).mp hkey)
    · exact .inl (List.mem_singleton.mp hself)
  · cases hname

/-- An edge the pointer crosses at: it is at the edge, the point beyond is on none of this
machine's monitors, and there another machine is. -/
theorem crossing_spec {c : Core} {m : Rect} {p : Point} {jump : Int} {edge : Edge}
    {target : String} {q : Point} (h : c.crossing m p jump = some (edge, target, q)) :
    atEdge m p edge jump = true ∧ ¬ OnMonitor c.localMonitors (stepTowards p edge jump)
      ∧ c.locate ((c.frame c.local_).toDesk (stepTowards p edge jump)) c.local_
        = some (target, q) := by
  obtain ⟨edge', -, hedge⟩ := List.exists_of_findSome?_eq_some h
  dsimp only at hedge
  split at hedge
  · cases hedge
  next hat =>
    split at hedge
    · cases hedge
    next hseam =>
      obtain ⟨⟨name, q'⟩, hfound, heq⟩ := Option.map_eq_some_iff.mp hedge
      cases heq
      exact ⟨by simpa using hat, fun hon => hseam (onMonitor_iff_any.mpr hon), hfound⟩

/-- What a sample of the pointer can come to, with the input at home. -/
inductive Sampled (c : Core) (p : Point) (nowMs : Nat) : Core → List Action → Prop where
  | off (hfind : (c.localMonitors.find? fun m => m.contains p) = none) : Sampled c p nowMs c []
  | inland {m : Rect} (hfind : (c.localMonitors.find? fun m => m.contains p) = some m)
      (hcross : c.crossing m p (max c.policy.jumpZone 1) = none) :
      Sampled c p nowMs { c with lastLocalMonitor := some m, switch := c.switch.leftEdge } []
  | held {m : Rect} {edge : Edge} {target : String} {q : Point} {switch : SwitchState}
      {decision : Decision} (hfind : (c.localMonitors.find? fun m => m.contains p) = some m)
      (hcross : c.crossing m p (max c.policy.jumpZone 1) = some (edge, target, q))
      (hgates : c.switch.evaluate c.policy nowMs edge true (nearCorner m p edge c.policy.cornerSize)
        = (switch, decision)) (hheld : decision ≠ .switch) :
      Sampled c p nowMs { c with lastLocalMonitor := some m, switch := switch } []
  | crosses {m : Rect} {edge : Edge} {target : String} {q : Point} {switch : SwitchState}
      (hfind : (c.localMonitors.find? fun m => m.contains p) = some m)
      (hcross : c.crossing m p (max c.policy.jumpZone 1) = some (edge, target, q))
      (hgates : c.switch.evaluate c.policy nowMs edge true (nearCorner m p edge c.policy.cornerSize)
        = (switch, .switch)) :
      Sampled c p nowMs
        (enter { c with lastLocalMonitor := some m, switch := switch } target q).1
        (enter { c with lastLocalMonitor := some m, switch := switch } target q).2

/-- The monitor the pointer was last seen on plays no part in where it crosses. -/
theorem crossing_noted (c : Core) (last : Option Rect) :
    Core.crossing { c with lastLocalMonitor := last } = c.crossing := rfl

/-- What a pointer sample does at home is what `Sampled` says of it. -/
theorem onPointer_sampled {c : Core} (hlocal : c.state = .local_) (p : Point) (nowMs : Nat) :
    Sampled c p nowMs (c.onPointer p nowMs).1 (c.onPointer p nowMs).2 := by
  unfold onPointer
  split
  · next hremote =>
    rw [hlocal] at hremote
    cases hremote
  · split
    · next hfind => exact .off hfind
    · next m hfind =>
      dsimp only
      rw [crossing_noted]
      split
      · next hcross => exact .inland hfind hcross
      · next edge target q hcross =>
        obtain ⟨switch, decision, hgates⟩ : ∃ switch decision, c.switch.evaluate c.policy nowMs
            edge true (nearCorner m p edge c.policy.cornerSize) = (switch, decision) := ⟨_, _, rfl⟩
        rw [hgates]
        cases decision with
        | switch => exact .crosses hfind hcross hgates
        | wait => exact .held hfind hcross hgates (by decide)
        | blocked => exact .held hfind hcross hgates (by decide)

/-- Going home by the hotkey ends on a monitor. -/
theorem localCenter_inside {c : Core} (h : RealMonitors c.localMonitors) :
    OnMonitor c.localMonitors c.localCenter := by
  have hmons : c.monitorsOf c.local_ = c.localMonitors := if_pos rfl
  have hne : c.localMonitors.isEmpty = false := by
    cases hm : c.localMonitors with
    | nil => exact absurd hm h.1
    | cons m ms => rfl
  unfold localCenter snapInto
  rw [hmons, hne]
  exact nearestPoint_inside h _

end Core

end GeserDesk
