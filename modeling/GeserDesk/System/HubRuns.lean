import GeserDesk.Lib.Transition
import GeserDesk.Server.Router

/-!
# Runs of the hub — sessions and the admin thread, lock section by lock section

Any number of client sessions and one admin thread call the hub. Each lock section and each
send on the event channel is a step of its own, so a session can stand between the two
halves of `register`, `set_monitors` or `unregister`, and the admin thread between the two
halves of `set_disabled`, while others run.

The router's picture of who is connected is the fold of the events sent so far
(`routerView`). What keeps that fold in step with the registry is stated and proved in
`HubView`.
-/

namespace GeserDesk

/-- Where one session stands in its calls on the hub. -/
inductive SessionPc where
  /-- `register` or `set_monitors` has written the entry and not yet looked at `disabled`. -/
  | checking (name : String) (monitors : List Rect)
  /-- The screen was found enabled; `Connected` is to be sent next. -/
  | announcing (name : String) (monitors : List Rect)
  /-- Registered, with no call under way. -/
  | live (name : String)
  /-- `unregister` has removed the entry; `Disconnected` is to be sent next. -/
  | leaving (name : String)
deriving DecidableEq

/-- The name a session holds an entry under: all but a leaving one do. -/
def SessionPc.holds : SessionPc → Option String
  | .checking n _ | .announcing n _ | .live n => some n
  | .leaving _ => none

/-- The monitors a session has written and still has to look to announce. -/
def SessionPc.owes : SessionPc → Option (String × List Rect)
  | .checking n ms | .announcing n ms => some (n, ms)
  | .live _ | .leaving _ => none

structure HubRun where
  hub : Hub ServerMsg := {}
  /-- Every session, by the order of its registration. -/
  sessions : Dict Nat SessionPc := ∅
  nextSession : Nat := 0
  /-- `set_disabled` between its two sections. -/
  admin : Option (String × Bool) := none
  /-- The events sent, each with the session it speaks of (bookkeeping only). -/
  posted : List (HubEvent × Option Nat) := []

inductive HubLabel where
  | registerInsert (name : String) (monitors : List Rect)
  | check (sid : Nat)
  | announce (sid : Nat)
  | setMonitorsEntry (sid : Nat) (monitors : List Rect)
  | remove (sid : Nat)
  | sayGone (sid : Nat)
  | flip (name : String) (disabled : Bool)
  | tell
  /-- A single send that concerns no one client: a layout change, monitors of this machine. -/
  | post (ev : HubEvent)

/-- The changes that concern no one client. -/
def HubEvent.isGeneral : HubEvent → Bool
  | .connected _ _ | .disconnected _ => false
  | _ => true

namespace HubRun

/-- The session registered under `name`. -/
def holder (s : HubRun) (name : String) : Option Nat :=
  (s.sessions.entries.find? fun e => decide (e.2.holds = some name)).map (·.1)

def step (s : HubRun) : HubLabel → Option HubRun
  | .registerInsert name monitors =>
    match s.hub.insertClient name monitors with
    | none => none -- the name is taken: `register` returns without a registration
    | some hub => some { s with
        hub := hub
        sessions := s.sessions.put s.nextSession (.checking name monitors)
        nextSession := s.nextSession + 1 }
  | .check sid =>
    match s.sessions.get? sid with
    | some (.checking name monitors) =>
      if s.hub.isDisabled name then
        some { s with sessions := s.sessions.put sid (.live name) }
      else some { s with sessions := s.sessions.put sid (.announcing name monitors) }
    | _ => none
  | .announce sid =>
    match s.sessions.get? sid with
    | some (.announcing name monitors) => some { s with
        hub := s.hub.announce name monitors
        sessions := s.sessions.put sid (.live name)
        posted := s.posted ++ [(.connected name monitors, some sid)] }
    | _ => none
  | .setMonitorsEntry sid monitors =>
    match s.sessions.get? sid with
    | some (.live name) =>
      let (hub, changed) := s.hub.setMonitorsEntry name monitors
      if changed then
        some { s with hub := hub, sessions := s.sessions.put sid (.checking name monitors) }
      else some s
    | _ => none
  | .remove sid =>
    match s.sessions.get? sid with
    | some (.live name) => some { s with
        hub := s.hub.removeClient name
        sessions := s.sessions.put sid (.leaving name) }
    | _ => none
  | .sayGone sid =>
    match s.sessions.get? sid with
    | some (.leaving name) => some { s with
        hub := s.hub.sayGone name
        sessions := s.sessions.drop sid
        posted := s.posted ++ [(.disconnected name, some sid)] }
    | _ => none
  | .flip name disabled =>
    match s.admin with
    | some _ => none
    | none =>
      let (hub, changed) := s.hub.flipDisabled name disabled
      if changed then some { s with hub := hub, admin := some (name, disabled) } else some s
  | .tell =>
    match s.admin with
    | none => none
    | some (name, disabled) =>
      match s.hub.clients.get? name with
      | none => some { s with hub := s.hub.tellRouter name disabled, admin := none }
      | some entry =>
        let ev : HubEvent :=
          if disabled then .disconnected name else .connected name entry.monitors
        some { s with
          hub := s.hub.tellRouter name disabled
          admin := none
          posted := s.posted ++ [(ev, s.holder name)] }
  | .post ev =>
    if ev.isGeneral then
      some { s with hub := s.hub.emit ev, posted := s.posted ++ [(ev, none)] }
    else none

/-- A server starts with no clients; the config says which screens are turned off. -/
def start (added : List String) (disabled : Finset String) : HubRun :=
  { hub := { added := added, disabled := disabled } }

end HubRun

/-- The hub with its sessions and its admin thread, as a transition system. -/
def hubRuns : Lts HubRun HubLabel where
  init s := ∃ added disabled, s = HubRun.start added disabled
  step := HubRun.step

/-! ## The router's view -/

/-- What one event does to the router's picture of the connected clients. -/
def viewEvent (view : Dict String (List Rect)) : HubEvent → Dict String (List Rect)
  | .connected name monitors => view.put name monitors
  | .disconnected name => view.drop name
  | _ => view

/-- The router's picture of the connected clients, as the fold of the events sent. -/
def routerView (events : List HubEvent) : Dict String (List Rect) := events.foldl viewEvent ∅

/-- The router's core keeps exactly that picture: `connected` is the fold of the events it
handles. -/
theorem onHubEvent_connected (c : Core) (ev : HubEvent) :
    (c.onHubEvent ev).1.connected = viewEvent c.connected ev := by
  cases ev with
  | connected name monitors => rfl
  | positions positions => rfl
  | sizes sizes => rfl
  | screenAdded name =>
    simp only [Core.onHubEvent, Core.addScreen, viewEvent]
    split <;> rfl
  | localMonitors monitors =>
    simp only [Core.onHubEvent, Core.setLocalMonitors, viewEvent]
    split <;> rfl
  | disconnected name =>
    simp only [Core.onHubEvent, Core.clientDisconnected, viewEvent]
    split
    · split <;> rfl
    · rfl

/-- The view after one event more is changed by that event. -/
theorem routerView_append (events : List HubEvent) (ev : HubEvent) :
    routerView (events ++ [ev]) = viewEvent (routerView events) ev := by
  rw [routerView, List.foldl_append]; rfl

end GeserDesk
