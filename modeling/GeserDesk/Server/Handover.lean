import GeserDesk.Lib.Spans
import GeserDesk.Server.Router

/-!
# How the router core hands the input over

Every reaction of `Core` does one of a few things to the screen that has the input, and says
which in its actions: it keeps the screen and at most sends it input, it enters a client, hops
from one client to another, or comes home. `Handover` lists these, and
**`handle_handover`** is the one place where the transition functions are taken apart. A failed
grab and a client that is gone are the two other ways the input comes home
(`onGrabFailed`, `clientDisconnected`); they send less.
-/

namespace GeserDesk

/-- What a message is to the client's span of input, if it is about input at all. -/
def ServerMsg.mark : ServerMsg → Option Mark
  | .enter _ _ _ _ => some .opens
  | .key _ | .mouse _ => some .inside
  | .leave => some .closes
  | _ => none

/-- A key or mouse message for `screen`. -/
def Action.IsInputFor (screen : String) (a : Action) : Prop :=
  ∃ msg, a = .send screen msg ∧ msg.mark = some .inside

/-- What a reaction does to the screen that has the input. -/
inductive Handover (c c' : Core) : List Action → Prop where
  | keep {acts : List Action} (hactive : c'.activeRemote = c.activeRemote) (hseq : c'.seq = c.seq)
      (hacts : ∀ a ∈ acts, ∃ screen, c.activeRemote = some screen ∧ a.IsInputFor screen) :
      Handover c c' acts
  | enter (target : String) (at_ : Point) (hactive : c.activeRemote = none)
      (hactive' : c'.activeRemote = some target) (hseq : c'.seq = c.seq + 1) :
      Handover c c' [.capture .grab, .send target (.enter at_.x at_.y (c.seq + 1) .empty)]
  | hop {screen next : String} {toEdge : Action} {at_ : Point}
      (hactive : c.activeRemote = some screen) (hactive' : c'.activeRemote = some next)
      (hne : next ≠ screen) (hseq : c'.seq = c.seq + 1) (hedge : toEdge.IsInputFor screen) :
      Handover c c' [toEdge, .send screen .leave,
        .send next (.enter at_.x at_.y (c.seq + 1) .empty)]
  | home {screen : String} {at_ : Point} (input : List Action)
      (hactive : c.activeRemote = some screen) (hactive' : c'.activeRemote = none)
      (hseq : c'.seq = c.seq) (hinput : ∀ a ∈ input, a.IsInputFor screen) :
      Handover c c' (input ++ [.send screen .leave, .capture (.ungrab at_)])

namespace Core

/-- A core at home has no active client. -/
theorem activeRemote_local {c : Core} (h : c.state = .local_) : c.activeRemote = none := by
  rw [activeRemote, h]

/-- A core with a client has that one for the active client. -/
theorem activeRemote_remote {c : Core} {screen : String} {pos : Point}
    (h : c.state = .remote screen pos) : c.activeRemote = some screen := by
  rw [activeRemote, h]

/-- A new core has the input, and has entered nobody. -/
theorem IsNew.start {c : Core} (h : c.IsNew) : c.activeRemote = none ∧ c.seq = 0 := by
  obtain ⟨layout, policy, name, monitors, positions, sizes, rules, rfl⟩ := h
  exact ⟨rfl, rfl⟩

/-- A reaction without actions that leaves the state and the number of entries alone. -/
theorem handover_idle {c c' : Core} (hstate : c'.state = c.state) (hseq : c'.seq = c.seq) :
    Handover c c' [] :=
  .keep (by rw [activeRemote, activeRemote, hstate]) hseq nofun

/-- What is forwarded is input for the screen that has it. -/
theorem forward_input (c : Core) {msg : ServerMsg} (hmsg : msg.mark = some .inside) :
    ∀ a ∈ c.forward msg, ∃ screen, c.activeRemote = some screen ∧ a.IsInputFor screen := by
  intro a ha
  cases hs : c.state with
  | local_ => simp [forward, hs] at ha
  | remote screen pos =>
    simp only [forward, hs, List.mem_singleton] at ha
    exact ⟨screen, activeRemote_remote hs, msg, ha, hmsg⟩

/-- Letting go of modifiers is input for the active client. -/
theorem releaseModifiers_input (c : Core) (mods : ModMask) :
    ∀ a ∈ c.releaseModifiers mods,
      ∃ screen, c.activeRemote = some screen ∧ a.IsInputFor screen := by
  intro a ha
  obtain ⟨⟨bit, keys⟩, -, ha⟩ := List.mem_flatMap.mp ha
  dsimp only at ha
  by_cases hbit : mods.contains bit = true
  · rw [if_pos hbit] at ha
    obtain ⟨hid, -, ha⟩ := List.mem_flatMap.mp ha
    exact c.forward_input rfl a ha
  · rw [if_neg hbit] at ha
    cases ha

/-- A key goes to the active client or nowhere. -/
theorem onKey_handover (c : Core) (k : KeyEvent) : Handover c (c.onKey k).1 (c.onKey k).2 := by
  unfold onKey
  split
  · next action _ =>
    dsimp only
    split
    · exact .keep rfl rfl (forward_input _ rfl)
    · exact .keep rfl rfl (forward_input _ rfl)
  · dsimp only
    generalize (if k.action = .down ∧ c.activeRemote.isSome then
      c.keyRules.find? fun r => r.matches k.hid k.mods else none) = rule
    split
    · exact .keep rfl rfl (forward_input _ rfl)
    · next rule =>
      refine .keep rfl rfl fun a ha => ?_
      rcases List.mem_append.mp ha with ha | ha
      · exact c.releaseModifiers_input rule.mods a ha
      · exact c.forward_input rfl a ha

/-- Entering from the local screen. -/
theorem enter_handover {c c₀ : Core} (target : String) (at_ : Point) (hstate : c.state = .local_)
    (hseq : c₀.seq = c.seq) : Handover c (c₀.enter target at_).1 (c₀.enter target at_).2 := by
  have h : Handover c (c₀.enter target at_).1
      [.capture .grab, .send target (.enter at_.x at_.y (c.seq + 1) .empty)] :=
    .enter target at_ (activeRemote_local hstate) rfl (by show c₀.seq + 1 = _; rw [hseq])
  rw [← hseq] at h
  exact h

/-- A pointer sample hands over to the client it enters or to nobody. -/
theorem onPointer_handover (c : Core) (p : Point) (nowMs : Nat) :
    Handover c (c.onPointer p nowMs).1 (c.onPointer p nowMs).2 := by
  unfold onPointer
  split
  · exact handover_idle rfl rfl
  · next hlocal =>
    split
    · exact handover_idle rfl rfl
    · dsimp only
      split
      · exact handover_idle rfl rfl
      · next edge target q _ =>
        split
        · exact enter_handover target q hlocal rfl
        · exact handover_idle rfl rfl
        · exact handover_idle rfl rfl

/-- The hotkey hands over to the client it enters, or home. -/
theorem onHotkey_handover (c : Core) : Handover c c.onHotkey.1 c.onHotkey.2 := by
  unfold onHotkey
  split
  · next screen pos hremote =>
    exact .home [] (activeRemote_remote hremote) rfl rfl nofun
  · next hlocal =>
    split
    · exact enter_handover _ _ hlocal rfl
    · exact handover_idle rfl rfl

/-- The machine found is not the one left out. -/
theorem locate_ne {c : Core} {v : Point} {exclude next : String} {q : Point}
    (h : c.locate v exclude = some (next, q)) : next ≠ exclude := by
  rw [locate] at h
  obtain ⟨name, hmem, hname⟩ := List.exists_of_findSome?_eq_some h
  have hne : name ≠ exclude := by simpa using (List.mem_filter.mp hmem).2
  rw [locateOn] at hname
  split at hname
  · rw [Option.some.injEq, Prod.mk.injEq] at hname
    exact hname.1 ▸ hne
  · cases hname

/-- A crossing hands over from the client it leaves to the one it enters. -/
theorem crossTo_handover {c : Core} {screen next : String} {pos moved q : Point}
    {mons : List Rect} (hremote : c.state = .remote screen pos) (hne : next ≠ screen) :
    Handover c (c.crossTo screen mons moved next q).1 (c.crossTo screen mons moved next q).2 := by
  let edge := nearestPoint moved mons
  have hedge : (Action.send screen (.mouse (.moveAbs edge.x edge.y))).IsInputFor screen :=
    ⟨_, rfl, rfl⟩
  unfold crossTo
  split
  · exact .home [_] (activeRemote_remote hremote) rfl rfl
      (fun a ha => List.mem_singleton.mp ha ▸ hedge)
  · exact .hop (activeRemote_remote hremote) rfl hne rfl hedge

/-- A motion that stays is input for the client it stays on. -/
theorem moveTo_handover {c : Core} {screen : String} {pos : Point}
    (hremote : c.state = .remote screen pos) (newPos : Point) :
    Handover c (c.moveTo screen newPos).1 (c.moveTo screen newPos).2 := by
  refine .keep (by rw [activeRemote_remote hremote]; rfl) rfl fun a ha => ?_
  exact ⟨screen, activeRemote_remote hremote, _, List.mem_singleton.mp ha, rfl⟩

/-- A motion hands over where it crosses, and is input for the client where it stays. -/
theorem onMotion_handover (c : Core) (dx dy : Int) :
    Handover c (c.onMotion dx dy).1 (c.onMotion dx dy).2 := by
  unfold onMotion
  split
  · exact handover_idle rfl rfl
  · next screen pos hremote =>
    dsimp only
    split
    · exact handover_idle rfl rfl
    · split
      · exact moveTo_handover hremote _
      · split
        · next next q hfound => exact crossTo_handover hremote (locate_ne hfound)
        · exact moveTo_handover hremote _

/-- **Every capture event but a failed grab hands the input over in one of these ways.** -/
theorem handle_handover (c : Core) {ev : CaptureEvent} (hev : ev ≠ .grabFailed) (nowMs : Nat) :
    Handover c (c.handle ev nowMs).1 (c.handle ev nowMs).2 := by
  cases ev with
  | pointer p => exact c.onPointer_handover p nowMs
  | motion dx dy => exact c.onMotion_handover dx dy
  | button b down => exact .keep rfl rfl (c.forward_input rfl)
  | wheel dx dy => exact .keep rfl rfl (c.forward_input rfl)
  | key k => exact c.onKey_handover k
  | hotkey => exact c.onHotkey_handover
  | grabFailed => exact absurd rfl hev

/-- A desk of two: this machine, and "b" to the right of it. -/
def twoScreens : Core :=
  ((new ⟨["desk", "b"], ∅⟩ {} "desk" [⟨0, 0, 1920, 1080⟩]
    (Dict.put ∅ "b" ⟨1920, 0⟩)).withSizes ∅).withKeyRules []

/-- Two screens side by side make a core that is new. -/
theorem twoScreens_isNew : twoScreens.IsNew := ⟨_, _, _, _, _, _, _, rfl⟩

/-! ## The reactions that are not handovers

What is left: a grab that failed, a client that is gone, and the events that move no cursor. -/

/-- A failed grab in remote mode gives the client up; the grab it answers took nothing. -/
theorem onGrabFailed_remote {c : Core} {screen : String} (h : c.activeRemote = some screen) :
    c.onGrabFailed.1.activeRemote = none ∧ c.onGrabFailed.1.seq = c.seq
      ∧ c.onGrabFailed.2 = [.send screen .leave] := by
  unfold onGrabFailed
  cases hs : c.state with
  | local_ => rw [activeRemote_local hs] at h; cases h
  | remote scr pos =>
    rw [activeRemote_remote hs, Option.some.injEq] at h
    subst h
    exact ⟨rfl, rfl, rfl⟩

/-- A grab can only fail a client. -/
theorem onGrabFailed_local {c : Core} (h : c.activeRemote = none) : c.onGrabFailed = (c, []) := by
  unfold onGrabFailed
  cases hs : c.state with
  | local_ => rfl
  | remote scr pos => rw [activeRemote_remote hs] at h; cases h

/-- The active client going away brings the input home, and it is sent nothing. -/
theorem clientDisconnected_active {c : Core} {name : String} (h : c.activeRemote = some name) :
    (c.clientDisconnected name).1.activeRemote = none ∧ (c.clientDisconnected name).1.seq = c.seq
      ∧ ∃ warp, (c.clientDisconnected name).2 = [.capture (.ungrab warp)] := by
  cases hs : c.state with
  | local_ => rw [activeRemote_local hs] at h; cases h
  | remote scr pos =>
    rw [activeRemote_remote hs, Option.some.injEq] at h
    subst h
    simp [clientDisconnected, refreshOrigins, hs, activeRemote]

/-- Any other client going away changes nothing about the input. -/
theorem clientDisconnected_other {c : Core} {name : String} (h : c.activeRemote ≠ some name) :
    (c.clientDisconnected name).1.activeRemote = c.activeRemote
      ∧ (c.clientDisconnected name).1.seq = c.seq ∧ (c.clientDisconnected name).2 = [] := by
  cases hs : c.state with
  | local_ => simp [clientDisconnected, refreshOrigins, hs, activeRemote]
  | remote scr pos =>
    have hne : scr ≠ name := fun e => h (by rw [activeRemote_remote hs, e])
    simp [clientDisconnected, refreshOrigins, hs, activeRemote, hne]

/-- Every other change the hub reports leaves the input where it is. -/
theorem onHubEvent_idle (c : Core) {ev : HubEvent} (hev : ∀ name, ev ≠ .disconnected name) :
    (c.onHubEvent ev).1.activeRemote = c.activeRemote ∧ (c.onHubEvent ev).1.seq = c.seq
      ∧ (c.onHubEvent ev).2 = [] := by
  cases ev with
  | connected name monitors => exact ⟨rfl, rfl, rfl⟩
  | positions positions => exact ⟨rfl, rfl, rfl⟩
  | sizes sizes => exact ⟨rfl, rfl, rfl⟩
  | screenAdded name =>
    unfold onHubEvent addScreen
    dsimp only
    split <;> exact ⟨rfl, rfl, rfl⟩
  | localMonitors monitors =>
    unfold onHubEvent setLocalMonitors
    dsimp only
    split <;> exact ⟨rfl, rfl, rfl⟩
  | disconnected name => exact absurd rfl (hev name)

/-- A change the hub reports either takes the input home from a client that is gone, or leaves
it where it is. -/
theorem onHubEvent_cases (c : Core) (ev : HubEvent) :
    (∃ name, ev = .disconnected name ∧ c.activeRemote = some name)
      ∨ ((c.onHubEvent ev).1.activeRemote = c.activeRemote ∧ (c.onHubEvent ev).1.seq = c.seq
        ∧ (c.onHubEvent ev).2 = []) := by
  by_cases hd : ∃ name, ev = .disconnected name
  · obtain ⟨name, rfl⟩ := hd
    by_cases hactive : c.activeRemote = some name
    · exact .inl ⟨name, rfl, hactive⟩
    · exact .inr (clientDisconnected_other hactive)
  · exact .inr (c.onHubEvent_idle fun name he => hd ⟨name, he⟩)

end Core

end GeserDesk
