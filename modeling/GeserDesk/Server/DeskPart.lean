import GeserDesk.Server.DeskState
import GeserDesk.Server.Router

/-!
# The map of the desk in the core

What `Core` works the places of the machines out from, and when it changes: capture events never
touch it, the hub's events each replace a part of it, and the origins are always the ones worked
out from the rest.
-/

namespace GeserDesk

/-- What the router and the layout editor each keep of the desk. -/
structure DeskPart where
  layout : Layout
  local_ : String
  localMonitors : List Rect
  positions : Dict String Point
  sizes : Dict String Size

def Core.desk (c : Core) : DeskPart :=
  ⟨c.layout, c.local_, c.localMonitors, c.positions, c.sizes⟩

def DeskState.desk (d : DeskState) : DeskPart :=
  ⟨d.layout, d.local_, d.localMonitors, d.positions, d.sizes⟩

/-- Looking at the desk changes nothing of it. -/
theorem DeskState.screens_desk {M : Type} (d : DeskState) (hub : Hub M) :
    (d.screens hub).2.desk = d.desk := by
  rw [(d.screens_learned hub).eq]
  rfl

/-- What one event replaces. -/
def DeskPart.onEvent (d : DeskPart) : HubEvent → DeskPart
  | .positions positions => { d with positions := positions }
  | .sizes sizes => { d with sizes := sizes }
  | .screenAdded name => { d with layout := (d.layout.addScreen name).1 }
  | .localMonitors monitors => if monitors.isEmpty then d else { d with localMonitors := monitors }
  | .connected _ _ | .disconnected _ => d

namespace Core

/-- Everything the places of the machines depend on is the same. -/
structure SameMap (c c' : Core) : Prop where
  desk : c'.desk = c.desk
  connected : c'.connected = c.connected
  origins : c'.origins = c.origins
  policy : c'.policy = c.policy

/-- A map is the same as itself. -/
theorem SameMap.rfl {c : Core} : SameMap c c := ⟨Eq.refl _, Eq.refl _, Eq.refl _, Eq.refl _⟩

/-- A pointer sample leaves the map as it is. -/
theorem onPointer_sameMap (c : Core) (p : Point) (nowMs : Nat) :
    SameMap c (c.onPointer p nowMs).1 := by
  unfold onPointer
  split
  · exact .rfl
  · split
    · exact .rfl
    · dsimp only
      split
      · exact ⟨Eq.refl _, Eq.refl _, Eq.refl _, Eq.refl _⟩
      · split
        · exact ⟨Eq.refl _, Eq.refl _, Eq.refl _, Eq.refl _⟩
        · exact ⟨Eq.refl _, Eq.refl _, Eq.refl _, Eq.refl _⟩
        · exact ⟨Eq.refl _, Eq.refl _, Eq.refl _, Eq.refl _⟩

/-- The hotkey leaves the map as it is. -/
theorem onHotkey_sameMap (c : Core) : SameMap c c.onHotkey.1 := by
  unfold onHotkey
  split
  · exact ⟨Eq.refl _, Eq.refl _, Eq.refl _, Eq.refl _⟩
  · split
    · exact ⟨Eq.refl _, Eq.refl _, Eq.refl _, Eq.refl _⟩
    · exact .rfl

/-- A grab that failed leaves the map as it is. -/
theorem onGrabFailed_sameMap (c : Core) : SameMap c c.onGrabFailed.1 := by
  unfold onGrabFailed
  split
  · exact ⟨Eq.refl _, Eq.refl _, Eq.refl _, Eq.refl _⟩
  · exact .rfl

/-- A crossing leaves the map as it is. -/
theorem crossTo_sameMap (c : Core) (screen : String) (mons : List Rect) (moved : Point)
    (next : String) (q : Point) : SameMap c (c.crossTo screen mons moved next q).1 := by
  unfold crossTo
  dsimp only
  split
  · exact ⟨Eq.refl _, Eq.refl _, Eq.refl _, Eq.refl _⟩
  · exact ⟨Eq.refl _, Eq.refl _, Eq.refl _, Eq.refl _⟩

/-- A motion leaves the map as it is. -/
theorem onMotion_sameMap (c : Core) (dx dy : Int) : SameMap c (c.onMotion dx dy).1 := by
  unfold onMotion
  split
  · exact .rfl
  · dsimp only
    split
    · exact .rfl
    · split
      · exact ⟨Eq.refl _, Eq.refl _, Eq.refl _, Eq.refl _⟩
      · split
        · exact c.crossTo_sameMap _ _ _ _ _
        · exact ⟨Eq.refl _, Eq.refl _, Eq.refl _, Eq.refl _⟩

/-- A key leaves the map as it is. -/
theorem onKey_sameMap (c : Core) (k : KeyEvent) : SameMap c (c.onKey k).1 := by
  unfold onKey
  split
  · dsimp only
    split
    · exact ⟨Eq.refl _, Eq.refl _, Eq.refl _, Eq.refl _⟩
    · exact .rfl
  · dsimp only
    generalize (if k.action = .down ∧ c.activeRemote.isSome then
      c.keyRules.find? fun r => r.matches k.hid k.mods else none) = rule
    split
    · exact .rfl
    · exact ⟨Eq.refl _, Eq.refl _, Eq.refl _, Eq.refl _⟩

/-- **Capture events leave the map alone.** -/
theorem handle_sameMap (c : Core) (ev : CaptureEvent) (nowMs : Nat) :
    SameMap c (c.handle ev nowMs).1 := by
  cases ev with
  | pointer p => exact c.onPointer_sameMap p nowMs
  | hotkey => exact c.onHotkey_sameMap
  | grabFailed => exact c.onGrabFailed_sameMap
  | motion dx dy => exact c.onMotion_sameMap dx dy
  | button button down => exact .rfl
  | wheel dx dy => exact .rfl
  | key k => exact c.onKey_sameMap k

/-- Losing a client changes only who is connected, and the origins with it. -/
theorem clientDisconnected_map (c : Core) (name : String) :
    SameMap (refreshOrigins { c with connected := c.connected.drop name })
      (c.clientDisconnected name).1 := by
  unfold clientDisconnected
  dsimp only
  split
  · split
    · exact ⟨Eq.refl _, Eq.refl _, Eq.refl _, Eq.refl _⟩
    · exact .rfl
  · exact .rfl

/-- An event of the hub changes the map as `DeskPart.onEvent` says, whatever the rest of the core
is. -/
theorem onHubEvent_desk (c : Core) (ev : HubEvent) :
    (c.onHubEvent ev).1.desk = c.desk.onEvent ev := by
  cases ev with
  | connected name monitors => rfl
  | positions positions => rfl
  | sizes sizes => rfl
  | screenAdded name =>
    show (c.addScreen name).desk = { c.desk with layout := (c.layout.addScreen name).1 }
    unfold addScreen Layout.addScreen
    by_cases hlisted : c.layout.hasScreen name = true
    · rw [if_pos hlisted]
      rfl
    · rw [if_neg hlisted]
      rfl
  | localMonitors monitors =>
    simp only [onHubEvent, setLocalMonitors, DeskPart.onEvent]
    by_cases hempty : monitors.isEmpty = true
    · rw [hempty, Bool.true_or, if_pos rfl, if_pos rfl]
    · by_cases hsame : monitors = c.localMonitors
      · rw [decide_eq_true hsame, Bool.or_true, if_pos rfl, if_neg hempty, hsame]
        rfl
      · rw [decide_eq_false hsame, Bool.or_false, if_neg hempty, if_neg hempty]
        rfl
  | disconnected name => exact (c.clientDisconnected_map name).desk

/-! ## The origins follow

The origins are computed anew after every change, so they are always those of the map at hand. -/

/-- The origins are the ones the rest gives. -/
def Placed (c : Core) : Prop := c.origins = c.refreshOrigins.origins

/-- Origins that were just worked out are in place. -/
theorem placed_refresh (c : Core) : c.refreshOrigins.Placed := rfl

/-- Origins stay in place while the map does. -/
theorem SameMap.placed {c c' : Core} (h : SameMap c c') (hc : c.Placed) : c'.Placed := by
  obtain ⟨hdesk, hconnected, horigins, -⟩ := h
  simp only [Core.desk, DeskPart.mk.injEq] at hdesk
  obtain ⟨hlayout, hlocal, hmons, hpos, hsizes⟩ := hdesk
  unfold Placed refreshOrigins monitorsOf at hc ⊢
  rw [horigins, hlayout, hlocal, hmons, hpos, hsizes, hconnected]
  exact hc

/-- An event that changes the map works the origins out again. -/
theorem onHubEvent_placed {c : Core} (hc : c.Placed) (ev : HubEvent) :
    (c.onHubEvent ev).1.Placed := by
  cases ev with
  | connected name monitors => exact placed_refresh _
  | positions positions => exact placed_refresh _
  | sizes sizes => exact placed_refresh _
  | screenAdded name =>
    simp only [onHubEvent, addScreen]
    split
    · exact placed_refresh _
    · exact hc
  | localMonitors monitors =>
    simp only [onHubEvent, setLocalMonitors]
    split
    · exact hc
    · exact placed_refresh _
  | disconnected name => exact (c.clientDisconnected_map name).placed (placed_refresh _)

theorem IsNew.placed {c : Core} (h : c.IsNew) : c.Placed ∧ c.connected = ∅ := by
  obtain ⟨layout, policy, name, monitors, positions, sizes, rules, rfl⟩ := h
  have hempty : (new layout policy name monitors positions).connected = ∅ := rfl
  generalize new layout policy name monitors positions = c at hempty ⊢
  have hplaced : (c.withSizes sizes).Placed := placed_refresh _
  have hmap : SameMap (c.withSizes sizes) ((c.withSizes sizes).withKeyRules rules) :=
    ⟨Eq.refl _, Eq.refl _, Eq.refl _, Eq.refl _⟩
  exact ⟨hmap.placed hplaced, hmap.connected.trans hempty⟩

end Core

end GeserDesk
