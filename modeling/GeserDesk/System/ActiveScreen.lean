import GeserDesk.Lib.Transition
import GeserDesk.Server.DeskPart
import GeserDesk.Server.Handover
import GeserDesk.Server.Handshake
import GeserDesk.Server.Inside

/-!
# The active screen

The core by itself, fed any hub events and capture events: who has the input is connected and is
not this machine, and wherever the core puts a cursor there is a monitor.

* **`active_screen`**: so it is in every run in which the hotkey is not pressed, on the server's
  own screen, while the machine nearest to it is a client that registered under the server's own
  name.
* **`own_name_takes_input`**: the handshake checks that a name is listed and free, and the
  server's own name is both. The hotkey hands such a client the input as if it were the server.
-/

namespace GeserDesk

/-- Where an action puts a cursor: on the screen of a client, or (`none`) on this machine's. -/
def Action.aim? : Action → Option (Option String × Point)
  | .send name (.enter x y _ _) => some (some name, ⟨x, y⟩)
  | .send name (.mouse (.moveAbs x y)) => some (some name, ⟨x, y⟩)
  | .capture (.ungrab warp) => some (none, warp)
  | _ => none

namespace Core

/-- The point is on a monitor the client last reported, or on one of this machine's. -/
def Reaches (c : Core) (who : Option String) (p : Point) : Prop :=
  match who with
  | some name => ∃ ms, c.connected.get? name = some ms ∧ OnMonitor ms p
  | none => OnMonitor c.localMonitors p

def AimsInside (c : Core) (acts : List Action) : Prop :=
  ∀ a ∈ acts, ∀ who p, a.aim? = some (who, p) → c.Reaches who p

/-- Who has the input, if not this machine, is another machine that is connected. -/
def ActiveConnected (c : Core) : Prop :=
  ∀ screen pos, c.state = .remote screen pos →
    screen ≠ c.local_ ∧ (c.connected.get? screen).isSome = true

/-- The invariant, with the monitors it needs. -/
structure ActiveInv (c : Core) : Prop where
  local_ : RealMonitors c.localMonitors
  clients : ∀ name ms, c.connected.get? name = some ms → RealMonitors ms
  active : c.ActiveConnected

/-- The machine's own name and monitors are part of the map. -/
theorem SameMap.fields {c c' : Core} (h : SameMap c c') :
    c'.local_ = c.local_ ∧ c'.localMonitors = c.localMonitors := by
  have hdesk := h.desk
  simp only [Core.desk, DeskPart.mk.injEq] at hdesk
  exact ⟨hdesk.2.1, hdesk.2.2.1⟩

/-- Where the cursor may be aimed depends on the map alone. -/
theorem SameMap.aimsInside {c c' : Core} (h : SameMap c c') {acts : List Action}
    (hacts : c.AimsInside acts) : c'.AimsInside acts := by
  intro a ha who p haim
  have hin := hacts a ha who p haim
  unfold Reaches at hin ⊢
  rw [h.connected, h.fields.2]
  exact hin

/-- A reaction that leaves the map alone keeps the invariant if who has the input afterwards was
connected before. -/
theorem ActiveInv.sameMap {c c' : Core} (h : c.ActiveInv) (hmap : SameMap c c')
    (hactive : ∀ screen pos, c'.state = .remote screen pos →
      screen ≠ c.local_ ∧ (c.connected.get? screen).isSome = true) : c'.ActiveInv := by
  refine ⟨hmap.fields.2 ▸ h.local_, hmap.connected ▸ h.clients, fun screen pos hs => ?_⟩
  rw [hmap.fields.1, hmap.connected]
  exact hactive screen pos hs

/-! ## Capture events

Every reaction to an event keeps a cursor where it was kept: on a monitor of the active screen. -/

/-- Actions that aim nowhere aim inside. -/
theorem aimsInside_of_none {c : Core} {acts : List Action}
    (h : ∀ a ∈ acts, a.aim? = none) : c.AimsInside acts := by
  intro a ha who p haim
  rw [h a ha] at haim
  cases haim

/-- What is forwarded to the active client aims nowhere. -/
theorem forward_aim {c : Core} {msg : ServerMsg} (h : ∀ name, (Action.send name msg).aim? = none) :
    ∀ a ∈ c.forward msg, a.aim? = none := by
  intro a ha
  unfold forward at ha
  split at ha
  · rw [List.mem_singleton.mp ha]
    exact h _
  · cases ha

/-- Letting go of modifiers aims nowhere. -/
theorem releaseModifiers_aim (c : Core) (mods : ModMask) :
    ∀ a ∈ c.releaseModifiers mods, a.aim? = none := by
  intro a ha
  obtain ⟨⟨bit, keys⟩, -, ha⟩ := List.mem_flatMap.mp ha
  dsimp only at ha
  split at ha
  · obtain ⟨hid, -, ha⟩ := List.mem_flatMap.mp ha
    exact forward_aim (fun _ => rfl) a ha
  · cases ha

/-- A key aims nowhere, and leaves the state alone. -/
theorem onKey_aim (c : Core) (k : KeyEvent) :
    (c.onKey k).1.state = c.state ∧ ∀ a ∈ (c.onKey k).2, a.aim? = none := by
  unfold onKey
  split
  · dsimp only
    refine ⟨?_, forward_aim fun _ => rfl⟩
    split <;> rfl
  · dsimp only
    generalize (if k.action = .down ∧ c.activeRemote.isSome then
      c.keyRules.find? fun r => r.matches k.hid k.mods else none) = rule
    split
    · exact ⟨rfl, forward_aim fun _ => rfl⟩
    · refine ⟨rfl, fun a ha => ?_⟩
      rcases List.mem_append.mp ha with ha | ha
      · exact c.releaseModifiers_aim _ a ha
      · exact forward_aim (fun _ => rfl) a ha

/-- What a reaction has to show: who has the input, and where it aims. -/
def Good (c : Core) (r : Core × List Action) : Prop :=
  (∀ screen pos, r.1.state = .remote screen pos →
    screen ≠ c.local_ ∧ (c.connected.get? screen).isSome = true) ∧ c.AimsInside r.2

/-- A reaction that leaves the state alone and aims nowhere keeps the invariant. -/
theorem Good.idle {c : Core} (h : c.ActiveInv) {c' : Core} {acts : List Action}
    (hstate : c'.state = c.state) (hacts : ∀ a ∈ acts, a.aim? = none) : c.Good (c', acts) :=
  ⟨fun screen pos hs => h.active screen pos (hstate ▸ hs), aimsInside_of_none hacts⟩

/-- A machine found that is not this one is a client, and the point is on its monitor. -/
theorem located {c : Core} {v q : Point} {exclude next : String}
    (h : c.locate v exclude = some (next, q)) (hne : next ≠ c.local_) :
    (c.connected.get? next).isSome = true ∧ c.Reaches (some next) q := by
  obtain ⟨-, hknown, -, hon⟩ := locate_spec h
  have hconnected := hknown.resolve_left hne
  obtain ⟨ms, hms⟩ := Option.isSome_iff_exists.mp hconnected
  refine ⟨hconnected, ms, hms, ?_⟩
  rw [monitorsOf, if_neg hne, hms] at hon
  exact hon

/-- Entering a connected client at a point on one of its monitors does as well. -/
theorem enter_good {c c₀ : Core} {target : String} {q : Point} (hne : target ≠ c.local_)
    (hconnected : (c.connected.get? target).isSome = true) (hon : c.Reaches (some target) q) :
    c.Good (c₀.enter target q) := by
  refine ⟨fun screen pos hs => ?_, fun a ha who p haim => ?_⟩
  · cases hs
    exact ⟨hne, hconnected⟩
  · rcases List.mem_cons.mp ha with rfl | ha
    · cases haim
    · rw [List.mem_singleton.mp ha] at haim
      cases haim
      exact hon

/-- A pointer sample that crosses enters at the point `locate` found. -/
theorem onPointer_good {c : Core} (h : c.ActiveInv) (p : Point) (nowMs : Nat) :
    c.Good (c.onPointer p nowMs) := by
  unfold onPointer
  split
  · exact .idle h rfl nofun
  · split
    · exact .idle h rfl nofun
    · next m _ =>
      dsimp only
      split
      · exact .idle h rfl nofun
      · next edge target q hcross =>
        have hlocate : c.locate _ c.local_ = some (target, q) := (crossing_spec hcross).2.2
        have hne := (locate_spec hlocate).1
        obtain ⟨hconnected, hon⟩ := located hlocate hne
        split
        · exact enter_good hne hconnected hon
        · exact .idle h rfl nofun
        · exact .idle h rfl nofun

/-- Going home aims at a point of a monitor of this machine. -/
theorem goLocal_aims {c : Core} {from_ : String} {at_ : Point}
    (hon : OnMonitor c.localMonitors at_) : c.AimsInside (c.goLocal from_ at_).2 := by
  intro a ha who p haim
  rcases List.mem_cons.mp ha with rfl | ha
  · cases haim
  · rw [List.mem_singleton.mp ha] at haim
    cases haim
    exact hon

/-- Of two connected machines, the one the hotkey prefers: the nearer, then the first by name. -/
def Prefers (a b : Int × String) : Prop := a.1 < b.1 ∨ a.1 = b.1 ∧ a.2 < b.2

instance : DecidableRel Prefers := fun _ _ => inferInstanceAs (Decidable (_ ∨ _))

/-- How far a machine with these monitors is from the middle of this machine's. -/
def rank (c : Core) (name : String) (bounds : Rect) : Int × String :=
  (sqDist ((c.frame name).toDesk bounds.center) ((c.frame c.local_).toDesk
    (match Rect.unionAll c.localMonitors with | some r => r.center | none => ⟨0, 0⟩)), name)

/-- A client is connected under this machine's own name, and no machine that is connected is
preferred to it. -/
def OwnNameNearest (c : Core) : Prop :=
  ∃ ms bounds, c.connected.get? c.local_ = some ms ∧ Rect.unionAll ms = some bounds
    ∧ ∀ e ∈ c.connected.entries, ∀ bounds', Rect.unionAll e.2 = some bounds' →
      ¬ Prefers (c.rank e.1 bounds') (c.rank c.local_ bounds)

/-- The hotkey picks a connected client that no other one is preferred to. -/
theorem hotkeyTarget_spec {c : Core} {target : String} (h : c.hotkeyTarget = some target) :
    ∃ ms bounds, c.connected.get? target = some ms ∧ Rect.unionAll ms = some bounds
      ∧ ∀ e ∈ c.connected.entries, ∀ bounds', Rect.unionAll e.2 = some bounds' →
        ¬ Prefers (c.rank e.1 bounds') (c.rank target bounds) := by
  let ranked := c.connected.entries.filterMap fun e =>
    (Rect.unionAll e.2).map fun r => c.rank e.1 r
  have hbest : c.hotkeyTarget = (Best.of Prefers ranked).map (·.2) := by
    unfold hotkeyTarget Best.of
    dsimp only
    congr 2
    funext best r
    cases best <;> rfl
  rw [hbest] at h
  obtain ⟨best, hof, rfl⟩ := Option.map_eq_some_iff.mp h
  have hne : ranked ≠ [] := by
    intro hnil
    rw [hnil, Best.of_nil] at hof
    cases hof
  have htrans : ∀ a b c : Int × String, Prefers a b → Prefers b c → Prefers a c := by
    rintro a b c (hab | ⟨hab, hab'⟩) (hbc | ⟨hbc, hbc'⟩)
    · exact .inl (Int.lt_trans hab hbc)
    · exact .inl (hbc ▸ hab)
    · exact .inl (hab ▸ hbc)
    · exact .inr ⟨hab.trans hbc, lt_trans hab' hbc'⟩
  have hirr : ∀ a : Int × String, ¬ Prefers a a := by
    rintro a (h | ⟨-, h⟩)
    · exact Int.lt_irrefl _ h
    · exact lt_irrefl _ h
  obtain ⟨b, hb, hof', hall⟩ := Best.of_spec htrans hirr hne
  rw [hof, Option.some.injEq] at hof'
  subst hof'
  obtain ⟨⟨name, ms⟩, he, hr⟩ := List.mem_filterMap.mp hb
  obtain ⟨bounds, hbounds, rfl⟩ := Option.map_eq_some_iff.mp hr
  refine ⟨ms, bounds, (Dict.mem_entries_iff _ _ _).mp he, hbounds, fun e he' bounds' hb' => ?_⟩
  exact hall _ (List.mem_filterMap.mpr ⟨e, he', by rw [hb']; rfl⟩)

/-- The hotkey enters that client in its middle, which `snap_into` puts on a monitor: a connected
one, if this machine's own name is not the one picked. -/
theorem onHotkey_good {c : Core} (h : c.ActiveInv)
    (hown : c.state = .local_ → ¬ c.OwnNameNearest) : c.Good c.onHotkey := by
  unfold onHotkey
  split
  · exact ⟨nofun, goLocal_aims (localCenter_inside h.local_)⟩
  · next hlocal =>
    split
    · next target htarget =>
      obtain ⟨ms, bounds, hms, hbounds, hall⟩ := hotkeyTarget_spec htarget
      have hne : target ≠ c.local_ := by
        rintro rfl
        exact hown hlocal ⟨ms, bounds, hms, hbounds, hall⟩
      have hreal := h.clients target ms hms
      have hmons : c.monitorsOf target = ms := by rw [monitorsOf, if_neg hne, hms]; rfl
      have hempty : ms.isEmpty = false := by
        cases ms with
        | nil => exact absurd rfl hreal.1
        | cons m ms => rfl
      refine enter_good hne (by rw [hms]; rfl) ⟨ms, hms, ?_⟩
      unfold snapInto
      rw [hmons, hempty]
      exact nearestPoint_inside hreal _
    · exact .idle h rfl nofun

/-- A grab that failed goes home. -/
theorem onGrabFailed_good {c : Core} (h : c.ActiveInv) : c.Good c.onGrabFailed := by
  unfold onGrabFailed
  split
  · refine ⟨nofun, aimsInside_of_none fun a ha => ?_⟩
    rw [List.mem_singleton.mp ha]
    rfl
  · exact .idle h rfl nofun

/-- A motion stays on the client's monitors, crosses to another's or comes home. -/
theorem onMotion_good {c : Core} (h : c.ActiveInv) (dx dy : Int) : c.Good (c.onMotion dx dy) := by
  unfold onMotion
  split
  · exact .idle h rfl nofun
  · next screen pos hremote =>
    obtain ⟨hne, hconnected⟩ := h.active screen pos hremote
    obtain ⟨ms, hms⟩ := Option.isSome_iff_exists.mp hconnected
    have hreal := h.clients screen ms hms
    have hmons : c.monitorsOf screen = ms := by rw [monitorsOf, if_neg hne, hms]; rfl
    have hmove : ∀ newPos, OnMonitor ms newPos → c.Good (c.moveTo screen newPos) := by
      intro newPos hon
      refine ⟨fun screen' pos' hs => ?_, fun a ha who p haim => ?_⟩
      · cases hs
        exact ⟨hne, hconnected⟩
      · rw [List.mem_singleton.mp ha] at haim
        cases haim
        exact ⟨ms, hms, hon⟩
    dsimp only
    rw [hmons]
    split
    · exact .idle h rfl nofun
    · split
      · next hin => exact hmove _ (onMonitor_iff_any.mp hin)
      · split
        · next next q hfound =>
          -- the cursor is put on the edge it leaves through first
          have hedge : ∀ moved, c.Reaches (some screen) (nearestPoint moved ms) := fun moved =>
            ⟨ms, hms, nearestPoint_inside hreal moved⟩
          unfold crossTo
          dsimp only
          split
          · next hhome =>
            obtain ⟨-, -, -, hon⟩ := locate_spec hfound
            rw [hhome, monitorsOf, if_pos rfl] at hon
            obtain ⟨m, hm, hin⟩ := hon
            refine ⟨nofun, fun a ha who p haim => ?_⟩
            rcases List.mem_cons.mp ha with rfl | ha
            · cases haim
              exact hedge _
            · refine goLocal_aims ?_ a ha who p haim
              cases hfind : c.localMonitors.find? fun m => m.contains q with
              | none => exact absurd hin (List.find?_eq_none.mp hfind m hm)
              | some lm =>
                have hlm := List.mem_of_find?_eq_some hfind
                exact ⟨lm, hlm, insetClamp_inside (h.local_.2 lm hlm) (by omega) q⟩
          · next hother =>
            obtain ⟨hconnected', hon⟩ := located hfound hother
            refine ⟨fun screen' pos' hs => ?_, fun a ha who p haim => ?_⟩
            · cases hs
              exact ⟨hother, hconnected'⟩
            · rcases List.mem_cons.mp ha with rfl | ha
              · cases haim
                exact hedge _
              · rcases List.mem_cons.mp ha with rfl | ha
                · cases haim
                · rw [List.mem_singleton.mp ha] at haim
                  cases haim
                  exact hon
        · exact hmove _ (nearestPoint_inside hreal _)

/-- **A capture event keeps the invariant, and every cursor it places is on a monitor.** -/
theorem handle_good {c : Core} (h : c.ActiveInv) (ev : CaptureEvent) (nowMs : Nat)
    (hown : ev = .hotkey → c.state = .local_ → ¬ c.OwnNameNearest) : c.Good (c.handle ev nowMs) := by
  cases ev with
  | pointer p => exact onPointer_good h p nowMs
  | hotkey => exact onHotkey_good h (hown rfl)
  | grabFailed => exact onGrabFailed_good h
  | motion dx dy => exact onMotion_good h dx dy
  | button button down => exact .idle h rfl (forward_aim fun _ => rfl)
  | wheel dx dy => exact .idle h rfl (forward_aim fun _ => rfl)
  | key k => exact .idle h (c.onKey_aim k).1 (c.onKey_aim k).2

/-! ## Changes the hub reports

A screen that leaves, a new one, monitors and places that change. -/

/-- The monitors an event brings are ones a machine can have. -/
def RealEvent : HubEvent → Prop
  | .connected _ monitors => RealMonitors monitors
  | .localMonitors monitors => RealMonitors monitors
  | _ => True

instance : DecidablePred RealEvent := fun ev => by
  unfold RealEvent
  split <;> infer_instance

/-- The clients are the same, the invariant is. -/
theorem ActiveInv.congr {c c' : Core} (h : c.ActiveInv) (hlocal : c'.local_ = c.local_)
    (hmons : c'.localMonitors = c.localMonitors) (hconnected : c'.connected = c.connected)
    (hstate : c'.state = c.state) : c'.ActiveInv := by
  refine ⟨hmons ▸ h.local_, hconnected ▸ h.clients, ?_⟩
  unfold ActiveConnected
  rw [hlocal, hconnected, hstate]
  exact h.active

/-- When the active client is gone the cursor comes home; another one's end changes nothing. -/
theorem clientDisconnected_good {c : Core} (h : c.ActiveInv) (name : String) :
    (c.clientDisconnected name).1.ActiveInv
    ∧ (c.clientDisconnected name).1.AimsInside (c.clientDisconnected name).2 := by
  have hclients : ∀ n ms, (c.connected.drop name).get? n = some ms → RealMonitors ms := by
    intro n ms hn
    rw [Dict.get?_drop] at hn
    split at hn
    · cases hn
    · exact h.clients n ms hn
  unfold clientDisconnected
  dsimp only
  split
  · next screen pos hremote =>
    split
    · refine ⟨⟨h.local_, hclients, nofun⟩, fun a ha who p haim => ?_⟩
      rw [List.mem_singleton.mp ha] at haim
      cases haim
      exact localCenter_inside h.local_
    · next hother =>
      refine ⟨⟨h.local_, hclients, fun screen' pos' hs => ?_⟩, nofun⟩
      obtain ⟨hne, hconnected⟩ := h.active screen' pos' hs
      have hsame : screen' = screen := by
        rw [show (refreshOrigins { c with connected := c.connected.drop name }).state = _ from hs]
          at hremote
        injection hremote
      refine ⟨hne, ?_⟩
      show ((c.connected.drop name).get? screen').isSome = true
      rw [Dict.get?_drop, if_neg (hsame ▸ hother)]
      exact hconnected
  · next hlocal =>
    refine ⟨⟨h.local_, hclients, fun screen pos hs => ?_⟩, nofun⟩
    rw [hlocal] at hs
    cases hs

/-- No action aims nowhere. -/
theorem aimsInside_nil (c : Core) : c.AimsInside [] := by
  simp [AimsInside]

/-- **A change the hub reports keeps the invariant, and brings the cursor home to a monitor.** -/
theorem onHubEvent_good {c : Core} (h : c.ActiveInv) {ev : HubEvent} (hev : RealEvent ev) :
    (c.onHubEvent ev).1.ActiveInv ∧ (c.onHubEvent ev).1.AimsInside (c.onHubEvent ev).2 := by
  cases ev with
  | connected name monitors =>
    refine ⟨⟨h.local_, fun n ms hn => ?_, fun screen pos hs => ?_⟩, aimsInside_nil _⟩
    · have hput : (c.connected.put name monitors).get? n = some ms := hn
      rw [Dict.get?_put] at hput
      clear hn
      split at hput
      · cases hput
        exact hev
      · exact h.clients n ms hput
    · obtain ⟨hne, hconnected⟩ := h.active screen pos hs
      refine ⟨hne, ?_⟩
      show ((c.connected.put name monitors).get? screen).isSome = true
      rw [Dict.get?_put]
      split
      · rfl
      · exact hconnected
  | positions positions => exact ⟨h.congr rfl rfl rfl rfl, aimsInside_nil _⟩
  | sizes sizes => exact ⟨h.congr rfl rfl rfl rfl, aimsInside_nil _⟩
  | screenAdded name =>
    refine ⟨h.congr ?_ ?_ ?_ ?_, aimsInside_nil _⟩ <;>
    · simp only [onHubEvent, addScreen]
      split <;> rfl
  | localMonitors monitors =>
    simp only [onHubEvent, setLocalMonitors]
    split
    · exact ⟨h, aimsInside_nil _⟩
    · exact ⟨⟨hev, h.clients, h.active⟩, aimsInside_nil _⟩
  | disconnected name => exact clientDisconnected_good h name

/-- A core that has just been made is at home. -/
theorem IsNew.activeInv {c : Core} (h : c.IsNew) (hreal : RealMonitors c.localMonitors) :
    c.ActiveInv := by
  refine ⟨hreal, fun name ms hn => ?_, fun screen pos hs => ?_⟩
  · rw [h.placed.2, Dict.get?_empty] at hn
    cases hn
  · have hstart := h.start.1
    rw [activeRemote, hs] at hstart
    cases hstart

end Core

/-! ## Runs

Over whole runs the active screen is registered and its cursor on one of its monitors. -/

/-- The core, with the actions its last reaction gave. -/
structure CoreRun where
  core : Core
  sent : List Action := []

inductive CoreLabel where
  /-- A change of the clients or the desk; a client found gone when it is sent to is one too. -/
  | hub (ev : HubEvent)
  | capture (ev : CaptureEvent) (nowMs : Nat)

/-- The core on its own, fed any events. The monitors it is told of are real. -/
def coreRuns : Lts CoreRun CoreLabel where
  init s := s.core.IsNew ∧ RealMonitors s.core.localMonitors ∧ s.sent = []
  step
    | s, .hub ev =>
      if Core.RealEvent ev then some ⟨(s.core.onHubEvent ev).1, (s.core.onHubEvent ev).2⟩ else none
    | s, .capture ev nowMs =>
      some ⟨(s.core.handle ev nowMs).1, (s.core.handle ev nowMs).2⟩

/-- The hotkey is not pressed, on the server's own screen, with the server's own name the nearest
machine that is connected. -/
def OwnNameUnpicked (s : CoreRun) : CoreLabel → Prop
  | .capture .hotkey _ => s.core.state = .local_ → ¬ s.core.OwnNameNearest
  | _ => True

/-- The active screen is a connected client that is not this machine, and every cursor the last
reaction placed is on a monitor. -/
structure CoreRun.Sound (s : CoreRun) : Prop where
  active : s.core.ActiveConnected
  aims : s.core.AimsInside s.sent

/-- The invariant holds in every state of a run that never picks this machine's own name. -/
theorem active_screen_inv {s : CoreRun} (hs : coreRuns.Reach OwnNameUnpicked s) :
    s.core.ActiveInv ∧ s.core.AimsInside s.sent := by
  refine Lts.Reach.invariant (P := fun s => s.core.ActiveInv ∧ s.core.AimsInside s.sent) ?_ ?_ hs
  · rintro s ⟨hnew, hreal, hsent⟩
    exact ⟨hnew.activeInv hreal, by rw [hsent]; exact nofun⟩
  · intro s l s' _ ih hok hl
    cases l with
    | hub ev =>
      simp only [coreRuns] at hl
      split at hl
      · next hev =>
        cases hl
        exact Core.onHubEvent_good ih.1 hev
      · cases hl
    | capture ev nowMs =>
      cases hl
      have hmap := s.core.handle_sameMap ev nowMs
      obtain ⟨hactive, haims⟩ := Core.handle_good ih.1 ev nowMs (by rintro rfl; exact hok)
      exact ⟨ih.1.sameMap hmap hactive, hmap.aimsInside haims⟩

/-- **In every run in which the hotkey does not pick the server's own name, the active screen is a
connected client and every cursor is placed on a monitor.** -/
theorem active_screen {s : CoreRun} (hs : coreRuns.Reach OwnNameUnpicked s) : s.Sound :=
  ⟨(active_screen_inv hs).1.active, (active_screen_inv hs).2⟩

/-! ### A client under another name, and one under the server's -/

def twoScreensRun : CoreRun := ⟨Core.twoScreens, []⟩

/-- Two screens side by side, before anything has happened. -/
theorem twoScreensRun_init : coreRuns.init twoScreensRun :=
  ⟨Core.twoScreens_isNew, by decide, rfl⟩

def oneMonitor : List Rect := [⟨0, 0, 1280, 720⟩]

/-- The hotkey pressed at home enters the other one. -/
theorem active_screen_hotkey : ∃ s, coreRuns.Reach OwnNameUnpicked s
    ∧ s.core.activeRemote = some "b" ∧ s.sent.length = 2 ∧ s.Sound := by
  let ev : HubEvent := .connected "b" oneMonitor
  let s₁ : CoreRun := ⟨(twoScreensRun.core.onHubEvent ev).1, (twoScreensRun.core.onHubEvent ev).2⟩
  let s₂ : CoreRun := ⟨(s₁.core.handle .hotkey 0).1, (s₁.core.handle .hotkey 0).2⟩
  have hreal : Core.RealEvent ev := by decide
  have hstep : coreRuns.step twoScreensRun (.hub ev) = some s₁ := by
    simp only [coreRuns, if_pos hreal, s₁]
  have h₁ : coreRuns.Reach OwnNameUnpicked s₁ :=
    .step (l := .hub ev) (.init twoScreensRun_init) trivial hstep
  have hunlisted : s₁.core.connected.get? s₁.core.local_ = none := by decide
  have h₂ : coreRuns.Reach OwnNameUnpicked s₂ := by
    refine .step (l := .capture .hotkey 0) h₁ ?_ rfl
    rintro - ⟨ms, bounds, hms, -⟩
    rw [hunlisted] at hms
    cases hms
  exact ⟨s₂, h₂, by decide +kernel, by decide +kernel, active_screen h₂⟩

/-- A client that calls itself "desk" passes the handshake of the server "desk", with a
certificate approved for that name, and the hotkey makes it the active screen. -/
theorem own_name_takes_input :
    (∃ screen version, screen.name = "desk"
      ∧ HandshakeStage.onHello Core.twoScreens.layout (.hello version screen)
        = .authorize screen version true
      ∧ HandshakeStage.onAuthorize { trusted := Dict.put ∅ "desk" ⟨1⟩ } (some ⟨1⟩) screen version true
        = .authorized screen version)
    ∧ ¬ ∀ s, coreRuns.Reachable s → s.Sound := by
  -- the handshake refuses no client for having the server's own name
  refine ⟨⟨⟨"desk", ⟨0, 0, 1280, 720⟩, oneMonitor, ⟨0, 0⟩⟩, protocolVersion, rfl, by decide,
    by decide⟩, fun hall => ?_⟩
  -- and the hotkey makes it the active screen
  have hend : (coreRuns.run twoScreensRun [.hub (.connected "desk" oneMonitor),
      .capture .hotkey 0]).map (fun s => decide (s.core.activeRemote = some s.core.local_))
      = some true := by decide +kernel
  obtain ⟨s, hs, hd⟩ := Option.map_eq_some_iff.mp hend
  have hactive := of_decide_eq_true hd
  have hsound := hall s (Lts.reachable_of_run twoScreensRun_init hs)
  unfold Core.activeRemote at hactive
  split at hactive
  · cases hactive
  next screen pos hremote =>
    exact (hsound.active screen pos hremote).1 (Option.some.inj hactive)

end GeserDesk
