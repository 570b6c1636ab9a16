import GeserDesk.Server.Handover
import GeserDesk.Server.Inside

/-!
# The input comes home and stays home

The cursor is put back on the local screen at a point well inside one of its monitors. Any
edge of any monitor that this point is close to is then a seam: the pixel beyond it is still on
the monitor the point was chosen in. So the next sample, taken at that point, crosses nothing,
whatever the machines around.

* **`no_bounce`**: the sample that follows an `ungrab` at its point does nothing.
-/

namespace GeserDesk

/-- The point is on the monitor, and so is every point `n` pixels to one of its sides. -/
def Rect.Deep (r : Rect) (n : Int) (p : Point) : Prop :=
  (r.left + n ≤ p.x ∧ p.x + n < r.right) ∧ r.top + n ≤ p.y ∧ p.y + n < r.bottom

/-- Wider and higher than the two bands of the width `jump`, an inset and one pixel more. -/
def Rect.Roomy (r : Rect) (jump : Int) : Prop := 2 * (jump + 1) + 1 < r.w ∧ 2 * (jump + 1) + 1 < r.h

instance (r : Rect) (jump : Int) : Decidable (r.Roomy jump) := inferInstanceAs (Decidable (_ ∧ _))

namespace Rect

variable {r : Rect} {jump : Int} {p : Point}

/-- Deep inside a monitor is on it. -/
theorem Deep.contains (h : r.Deep jump p) (hjump : 0 ≤ jump) : r.contains p = true := by
  obtain ⟨⟨hleft, hright⟩, htop, hbottom⟩ := h
  rw [contains_iff]
  omega

/-- A step towards any edge stays on the monitor. -/
theorem Deep.step (h : r.Deep jump p) (edge : Edge) (hjump : 0 ≤ jump) :
    r.contains (stepTowards p edge jump) = true := by
  obtain ⟨⟨hleft, hright⟩, htop, hbottom⟩ := h
  rw [contains_iff]
  cases edge with
  | left => simp only [stepTowards]; omega
  | right => simp only [stepTowards]; omega
  | top => simp only [stepTowards]; omega
  | bottom => simp only [stepTowards]; omega

/-- The middle of a roomy monitor is deep inside. -/
theorem Roomy.deep_center (h : r.Roomy jump) (hjump : 1 ≤ jump) : r.Deep jump r.center := by
  obtain ⟨hw, hh⟩ := h
  have hx : r.w.tdiv 2 = r.w / 2 := Int.tdiv_eq_ediv_of_nonneg (by omega)
  have hy : r.h.tdiv 2 = r.h / 2 := Int.tdiv_eq_ediv_of_nonneg (by omega)
  simp only [Deep, center, left, right, top, bottom, hx, hy]
  omega

/-- A point pulled in by the jump and one is deep inside. -/
theorem Roomy.deep_inset (h : r.Roomy jump) (q : Point) :
    r.Deep jump (insetClamp q r (jump + 1)) := by
  obtain ⟨hw, hh⟩ := h
  simp only [insetClamp, if_pos hw, if_pos hh, Deep, left, right, top, bottom]
  omega

end Rect

namespace Core

/-- The edge band, at least a pixel wide. -/
def jump (c : Core) : Int := max c.policy.jumpZone 1

/-- Where the cursor is put when it comes home: deep in a local monitor, if there is any. -/
def Settles (c : Core) (warp : Point) : Prop :=
  c.localMonitors = [] ∨ ∃ m ∈ c.localMonitors, m.Deep c.jump warp

variable {c : Core}

/-- The jump is a pixel at least. -/
theorem one_le_jump (c : Core) : 1 ≤ c.jump := Int.le_max_right _ _

/-- **Next to a seam on every side, the cursor crosses nothing.** -/
theorem Settles.crossing {warp : Point} (h : c.Settles warp) {m : Rect} (hm : m ∈ c.localMonitors) :
    c.crossing m warp c.jump = none := by
  have hjump := c.one_le_jump
  rcases h with hnone | ⟨home, hhome, hdeep⟩
  · rw [hnone] at hm
    cases hm
  · cases hc : c.crossing m warp c.jump with
    | none => rfl
    | some hit =>
      obtain ⟨edge, target, q⟩ := hit
      obtain ⟨-, hoff, -⟩ := crossing_spec hc
      exact absurd ⟨home, hhome, hdeep.step edge (by omega)⟩ hoff

/-- A sample taken there, with the input at home, does nothing. -/
theorem Settles.onPointer {warp : Point} (h : c.Settles warp) (hlocal : c.state = .local_)
    (nowMs : Nat) :
    (c.onPointer warp nowMs).2 = [] ∧ (c.onPointer warp nowMs).1.state = .local_ := by
  have hnone : ∀ m edge target q, (c.localMonitors.find? fun m => m.contains warp) = some m →
      c.crossing m warp (max c.policy.jumpZone 1) ≠ some (edge, target, q) := by
    intro m edge target q hfind hcross
    have hnone := h.crossing (List.mem_of_find?_eq_some hfind)
    rw [jump, hcross] at hnone
    cases hnone
  have hsampled := onPointer_sampled hlocal warp nowMs
  generalize (c.onPointer warp nowMs).1 = c', (c.onPointer warp nowMs).2 = acts at hsampled ⊢
  cases hsampled with
  | off hfind => exact ⟨rfl, hlocal⟩
  | inland hfind hcross => exact ⟨rfl, hlocal⟩
  | held hfind hcross hgates hheld => exact ⟨rfl, hlocal⟩
  | crosses hfind hcross hgates => exact absurd hcross (hnone _ _ _ _ hfind)

/-- The middle of a local monitor, unless there is none. -/
theorem localCenter_settles (hroomy : ∀ m ∈ c.localMonitors, m.Roomy c.jump) :
    c.Settles c.localCenter := by
  have hjump := c.one_le_jump
  by_cases hnone : c.localMonitors = []
  · exact .inl hnone
  right
  obtain ⟨first, rest, hcons⟩ := List.exists_cons_of_ne_nil hnone
  have hhome : ∃ m ∈ c.localMonitors,
      ((c.lastLocalMonitor.filter fun m => c.localMonitors.contains m)
        |>.or (c.localMonitors.find? fun m => m.contains ⟨0, 0⟩)
        |>.or c.localMonitors.head?) = some m := by
    cases hlast : c.lastLocalMonitor.filter fun m => c.localMonitors.contains m with
    | some m =>
      refine ⟨m, ?_, rfl⟩
      have hlisted := (Option.filter_eq_some_iff.mp hlast).2
      exact List.contains_iff_mem.mp hlisted
    | none =>
      cases hprimary : c.localMonitors.find? fun m => m.contains ⟨0, 0⟩ with
      | some m => exact ⟨m, List.mem_of_find?_eq_some hprimary, rfl⟩
      | none => exact ⟨first, by rw [hcons]; exact List.mem_cons_self, by rw [hcons]; rfl⟩
  obtain ⟨m, hm, hchosen⟩ := hhome
  have hdeep : m.Deep c.jump m.center := (hroomy m hm).deep_center hjump
  have hon : OnMonitor c.localMonitors m.center := ⟨m, hm, hdeep.contains (by omega)⟩
  have hcenter : c.localCenter = m.center := by
    have hmons : c.monitorsOf c.local_ = c.localMonitors := if_pos rfl
    unfold localCenter snapInto
    rw [hchosen, hmons]
    dsimp only
    rw [nearestPoint_of_inside hon]
    exact ite_self _
  rw [hcenter]
  exact ⟨m, hm, hdeep⟩

/-- The way a reaction brings the cursor home: it ends at home, at a point where it settles. -/
def ComesHome (c : Core) (acts : List Action) : Prop :=
  ∀ warp, .capture (.ungrab warp) ∈ acts → c.state = .local_ ∧
    ((∀ m ∈ c.localMonitors, m.Roomy c.jump) → c.Settles warp)

/-- Nothing but messages: no cursor comes home. -/
theorem comesHome_of_sends {acts : List Action} (h : ∀ a ∈ acts, ∃ to_ msg, a = .send to_ msg) :
    c.ComesHome acts := by
  intro warp hwarp
  obtain ⟨to_, msg, hsend⟩ := h _ hwarp
  cases hsend

/-- What is forwarded are messages. -/
theorem forward_sends (msg : ServerMsg) : ∀ a ∈ c.forward msg, ∃ to_ msg, a = .send to_ msg := by
  intro a ha
  unfold forward at ha
  split at ha
  · exact ⟨_, _, List.mem_singleton.mp ha⟩
  · cases ha

/-- Going home ends where the cursor settles, whatever is sent to the edge before it. -/
theorem goLocal_comesHome {from_ : String} {at_ : Point} (toEdge : List Action)
    (hedge : ∀ a ∈ toEdge, ∃ to_ msg, a = .send to_ msg)
    (hsettles : (∀ m ∈ c.localMonitors, m.Roomy c.jump) → c.Settles at_) :
    (c.goLocal from_ at_).1.ComesHome (toEdge ++ (c.goLocal from_ at_).2) := by
  intro warp hwarp
  refine ⟨rfl, fun hroomy => ?_⟩
  have hat : warp = at_ := by
    rcases List.mem_append.mp hwarp with hmem | hmem
    · obtain ⟨to_, msg, hsend⟩ := hedge _ hmem
      cases hsend
    · simpa [goLocal] using hmem
  rw [hat]
  exact hsettles hroomy

/-- An entry brings nobody home. -/
theorem enter_comesHome (target : String) (at_ : Point) :
    (c.enter target at_).1.ComesHome (c.enter target at_).2 := by
  intro warp hwarp
  simp [enter, enterFromRemote] at hwarp

/-- No actions, no warp. -/
theorem comesHome_nil : c.ComesHome [] := nofun

/-- A pointer sample warps nowhere. -/
theorem onPointer_comesHome (c : Core) (p : Point) (nowMs : Nat) :
    (c.onPointer p nowMs).1.ComesHome (c.onPointer p nowMs).2 := by
  cases hs : c.state with
  | remote screen pos =>
    rw [onPointer, hs]
    exact comesHome_nil
  | local_ =>
    have hsampled := onPointer_sampled hs p nowMs
    generalize (c.onPointer p nowMs).1 = c', (c.onPointer p nowMs).2 = acts at hsampled ⊢
    cases hsampled with
    | off hfind => exact comesHome_nil
    | inland hfind hcross => exact comesHome_nil
    | held hfind hcross hgates hheld => exact comesHome_nil
    | crosses hfind hcross hgates => exact enter_comesHome _ _

/-- The hotkey warps to the middle. -/
theorem onHotkey_comesHome (c : Core) : c.onHotkey.1.ComesHome c.onHotkey.2 := by
  unfold onHotkey
  split
  · exact goLocal_comesHome [] nofun localCenter_settles
  · split
    · exact enter_comesHome _ _
    · exact comesHome_nil

/-- A grab that failed warps nowhere. -/
theorem onGrabFailed_comesHome (c : Core) : c.onGrabFailed.1.ComesHome c.onGrabFailed.2 := by
  unfold onGrabFailed
  split
  · exact comesHome_of_sends fun a ha => ⟨_, _, List.mem_singleton.mp ha⟩
  · exact comesHome_nil

/-- The way back across an edge: inset into the monitor that is there. -/
theorem crossTo_comesHome {screen next : String} {mons : List Rect} {moved v q : Point}
    (hfound : c.locate v screen = some (next, q)) :
    (c.crossTo screen mons moved next q).1.ComesHome (c.crossTo screen mons moved next q).2 := by
  unfold crossTo
  split
  · next hhome =>
    refine goLocal_comesHome [_] (fun a ha => ⟨_, _, List.mem_singleton.mp ha⟩) fun hroomy => ?_
    obtain ⟨-, -, -, hon⟩ := locate_spec hfound
    rw [hhome, show c.monitorsOf c.local_ = c.localMonitors from if_pos rfl] at hon
    cases hfind : c.localMonitors.find? fun m => m.contains q with
    | none =>
      obtain ⟨m, hm, hin⟩ := hon
      exact absurd hin (List.find?_eq_none.mp hfind m hm)
    | some m =>
      have hm : m ∈ c.localMonitors := List.mem_of_find?_eq_some hfind
      exact .inr ⟨m, hm, (hroomy m hm).deep_inset q⟩
  · intro warp hwarp
    simp [enterFromRemote] at hwarp

/-- A motion warps to a point pulled in. -/
theorem onMotion_comesHome (c : Core) (dx dy : Int) :
    (c.onMotion dx dy).1.ComesHome (c.onMotion dx dy).2 := by
  have hmoves : ∀ screen at_, (c.moveTo screen at_).1.ComesHome (c.moveTo screen at_).2 :=
    fun screen at_ => comesHome_of_sends fun a ha => ⟨_, _, List.mem_singleton.mp ha⟩
  unfold onMotion
  split
  · exact comesHome_nil
  · dsimp only
    split
    · exact comesHome_nil
    · split
      · exact hmoves _ _
      · split
        · next next q hfound => exact crossTo_comesHome hfound
        · exact hmoves _ _

/-- A key warps nowhere. -/
theorem onKey_comesHome (c : Core) (k : KeyEvent) : (c.onKey k).1.ComesHome (c.onKey k).2 := by
  refine comesHome_of_sends fun a ha => ?_
  unfold onKey at ha
  split at ha
  · exact forward_sends _ a ha
  · dsimp only at ha
    generalize (if k.action = .down ∧ c.activeRemote.isSome then
      c.keyRules.find? fun r => r.matches k.hid k.mods else none) = rule at ha
    cases rule with
    | none => exact forward_sends _ a ha
    | some rule =>
      rcases List.mem_append.mp ha with ha | ha
      · obtain ⟨screen, -, msg, hsend, -⟩ := c.releaseModifiers_input rule.mods a ha
        exact ⟨screen, msg, hsend⟩
      · exact forward_sends _ a ha

/-- **Every reaction to a capture event brings the cursor home to where it settles.** -/
theorem handle_comesHome (c : Core) (ev : CaptureEvent) (nowMs : Nat) :
    (c.handle ev nowMs).1.ComesHome (c.handle ev nowMs).2 := by
  cases ev with
  | pointer p => exact c.onPointer_comesHome p nowMs
  | motion dx dy => exact c.onMotion_comesHome dx dy
  | button b down => exact comesHome_of_sends (forward_sends _)
  | wheel dx dy => exact comesHome_of_sends (forward_sends _)
  | key k => exact c.onKey_comesHome k
  | hotkey => exact c.onHotkey_comesHome
  | grabFailed => exact c.onGrabFailed_comesHome

/-- The end of the active client warps to the middle. -/
theorem clientDisconnected_comesHome (c : Core) (name : String) :
    (c.clientDisconnected name).1.ComesHome (c.clientDisconnected name).2 := by
  unfold clientDisconnected
  dsimp only
  split
  · split
    · intro warp hwarp
      have hat := List.mem_singleton.mp hwarp
      cases hat
      exact ⟨rfl, localCenter_settles⟩
    · exact comesHome_nil
  · exact comesHome_nil

/-- What `run_shared` does with any change the hub reports. -/
theorem onHubEvent_comesHome (c : Core) (ev : HubEvent) :
    (c.onHubEvent ev).1.ComesHome (c.onHubEvent ev).2 := by
  cases ev with
  | disconnected name => exact c.clientDisconnected_comesHome name
  | connected name monitors => exact comesHome_nil
  | positions positions => exact comesHome_nil
  | sizes sizes => exact comesHome_nil
  | screenAdded name => exact comesHome_nil
  | localMonitors monitors => exact comesHome_nil

end Core

/-- What reaches the core: a capture event at a time, a change the hub reports, or a client
found gone on sending to it. -/
inductive CoreInput where
  | capture (ev : CaptureEvent) (nowMs : Nat)
  | hub (ev : HubEvent)
  | vanished (name : String)

def Core.react (c : Core) : CoreInput → Core × List Action
  | .capture ev nowMs => c.handle ev nowMs
  | .hub ev => c.onHubEvent ev
  | .vanished name => c.clientDisconnected name

/-- **Wherever a reaction warps the cursor at home, it settles there.** -/
theorem Core.react_comesHome (c : Core) (input : CoreInput) :
    (c.react input).1.ComesHome (c.react input).2 := by
  cases input with
  | capture ev nowMs => exact c.handle_comesHome ev nowMs
  | hub ev => exact c.onHubEvent_comesHome ev
  | vanished name => exact c.clientDisconnected_comesHome name

/-- **The cursor does not bounce.** Whatever the core, whatever reaches it: if that brings the
cursor home, the next sample taken where it was put gives no action and leaves the input at
home, so long as every local monitor is wider and higher than the two bands and their inset. -/
theorem no_bounce (c : Core) (input : CoreInput) (warp : Point) (nowMs : Nat)
    (hhome : .capture (.ungrab warp) ∈ (c.react input).2)
    (hroomy : ∀ m ∈ (c.react input).1.localMonitors,
      m.Roomy (max (c.react input).1.policy.jumpZone 1)) :
    ((c.react input).1.handle (.pointer warp) nowMs).2 = []
      ∧ ((c.react input).1.handle (.pointer warp) nowMs).1.state = .local_ := by
  obtain ⟨hlocal, hsettles⟩ := c.react_comesHome input warp hhome
  exact (hsettles hroomy).onPointer hlocal nowMs

/-- The two screens with the cursor on "b", just in from its left edge. -/
def Core.overTheEdge : Core :=
  ((Core.twoScreens.clientConnected "b" [⟨0, 0, 1280, 720⟩]).react
    (.capture (.pointer ⟨1919, 500⟩) 0)).1

/-- Pushed back over the edge it came through, the cursor stays at home. -/
theorem no_bounce_edge :
    .capture (.ungrab ⟨1915, 500⟩) ∈ (Core.overTheEdge.react (.capture (.motion (-5) 0) 1)).2
      ∧ ((Core.overTheEdge.react (.capture (.motion (-5) 0) 1)).1.handle
          (.pointer ⟨1915, 500⟩) 2).2 = []
      ∧ ((Core.overTheEdge.react (.capture (.motion (-5) 0) 1)).1.handle
          (.pointer ⟨1915, 500⟩) 2).1.state = .local_ := by
  have hhome : .capture (.ungrab ⟨1915, 500⟩)
      ∈ (Core.overTheEdge.react (.capture (.motion (-5) 0) 1)).2 := by decide +kernel
  exact ⟨hhome, no_bounce Core.overTheEdge _ ⟨1915, 500⟩ 2 hhome (by decide +kernel)⟩

end GeserDesk
