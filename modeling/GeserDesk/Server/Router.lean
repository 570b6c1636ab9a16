import GeserDesk.Server.Desk
import GeserDesk.Server.Hub
import GeserDesk.Platform.Capture
import Mathlib.Data.List.Sort
import Mathlib.Data.String.Basic

/-!
# The router core — which screen owns the keyboard and mouse

`geserdesk-server/src/router.rs`. `Core` is the whole decision procedure as a pure state
machine: capture events and connection changes go in, `Action`s come out. A method that
mutates `self` returns the new core beside its actions; the clock is an argument.

`Turn` is one pass of the loop in `run_shared`: an event is handled, and the actions it gave
are carried out one by one, a send to a client that has gone adding actions of its own. A
router whose capture backend has stopped returns, so its run ends there.
-/

namespace GeserDesk

/-- The keys of each modifier, left and right, to let go of on the client. -/
def MODIFIER_KEYS : List (ModMask × List Nat) :=
  [(.CONTROL, [0xE0, 0xE4]), (.ALT, [0xE2, 0xE6]), (.SHIFT, [0xE1, 0xE5]),
   (.SUPER, [0xE3, 0xE7]), (.ALT_GR, [0xE6])]

/-- Something the shell must do on behalf of `Core`. -/
inductive Action where
  | send (to_ : String) (msg : ServerMsg)
  | capture (cmd : CaptureCmd)
deriving DecidableEq, Repr

/-- Who has the keyboard and mouse; on a client, with the cursor's position there. -/
inductive RouterState where
  | local_
  | remote (screen : String) (pos : Point)
deriving DecidableEq, Repr

/-- The routing state machine. -/
structure Core where
  layout : Layout
  policy : SwitchPolicy
  local_ : String
  localMonitors : List Rect
  positions : Dict String Point
  /-- Desk sizes that differ from a machine's real one. -/
  sizes : Dict String Size := ∅
  /-- Effective origin of every configured screen on the virtual desk. -/
  origins : Dict String Point := ∅
  connected : Dict String (List Rect) := ∅
  state : RouterState := .local_
  /-- The local monitor the pointer was last seen on while the server had the input. -/
  lastLocalMonitor : Option Rect := none
  switch : SwitchState := {}
  seq : Nat := 0
  keyRules : List Rule := []
  /-- The keys whose press fired a rule, and the action each one stands for until released. -/
  fired : Dict Nat Nat := ∅

/-- Is `p` within `jump` pixels of `edge` of `bounds`? -/
def atEdge (bounds : Rect) (p : Point) (edge : Edge) (jump : Int) : Bool :=
  match edge with
  | .left => p.x < bounds.left + jump
  | .right => bounds.right - jump ≤ p.x
  | .top => p.y < bounds.top + jump
  | .bottom => bounds.bottom - jump ≤ p.y

/-- `p` moved `n` pixels towards `edge`. -/
def stepTowards (p : Point) (edge : Edge) (n : Int) : Point :=
  match edge with
  | .left => ⟨p.x - n, p.y⟩
  | .right => ⟨p.x + n, p.y⟩
  | .top => ⟨p.x, p.y - n⟩
  | .bottom => ⟨p.x, p.y + n⟩

/-- Corner constraint: the whole edge when `cornerSize` is not positive, else only positions
within `cornerSize` pixels of either end of the edge. -/
def nearCorner (bounds : Rect) (p : Point) (edge : Edge) (cornerSize : Int) : Bool :=
  if cornerSize ≤ 0 then true
  else
    let (pos, lo, hi) := match edge with
      | .left | .right => (p.y, bounds.top, bounds.bottom)
      | .top | .bottom => (p.x, bounds.left, bounds.right)
    decide (pos - lo < cornerSize) || decide (hi - 1 - pos < cornerSize)

namespace Core

/-- The remote screen currently holding the input, if any. -/
def activeRemote (c : Core) : Option String :=
  match c.state with
  | .local_ => none
  | .remote screen _ => some screen

/-! ## Desk geometry -/

def monitorsOf (c : Core) (name : String) : List Rect :=
  if name = c.local_ then c.localMonitors else (c.connected.get? name).getD []

def refreshOrigins (c : Core) : Core :=
  let sizeOf (name : String) : Int × Int := deskSize (c.monitorsOf name) (c.sizes.get? name)
  { c with origins := effectiveOrigins c.layout.screens c.layout sizeOf c.local_ c.positions }

def origin (c : Core) (name : String) : Point := (c.origins.get? name).getD ⟨0, 0⟩

/-- How `name`'s own coordinates map onto the desk. -/
def frame (c : Core) (name : String) : Frame :=
  Frame.new (c.origin name) (Rect.unionAll (c.monitorsOf name)) (c.sizes.get? name)

/-- The point of `name` under the desk point `v`, if it is on a monitor. -/
def locateOn (c : Core) (v : Point) (name : String) : Option (String × Point) :=
  let q := (c.frame name).toLocal v
  if (c.monitorsOf name).any fun m => m.contains q then some (name, q) else none

/-- Which machine (other than `exclude`) has a monitor at desk point `v`, and where that is in
the machine's own coordinates. Machines are tried in name order. -/
def locate (c : Core) (v : Point) (exclude : String) : Option (String × Point) :=
  let names := List.insertionSort (· ≤ ·) (c.connected.keys ++ [c.local_])
  (names.filter (· ≠ exclude)).findSome? (c.locateOn v)

/-- `p` moved onto the nearest monitor of `name`. -/
def snapInto (c : Core) (name : String) (p : Point) : Point :=
  if (c.monitorsOf name).isEmpty then p else nearestPoint p (c.monitorsOf name)

/-- Where input returns to on the local screen when nothing says where: the middle of the
monitor the pointer was last on, else of the primary one. -/
def localCenter (c : Core) : Point :=
  let home := (c.lastLocalMonitor.filter fun m => c.localMonitors.contains m)
    |>.or (c.localMonitors.find? fun m => m.contains ⟨0, 0⟩)
    |>.or c.localMonitors.head?
  c.snapInto c.local_ (match home with | some m => m.center | none => ⟨0, 0⟩)

/-! ## Connection and configuration changes -/

def new (layout : Layout) (policy : SwitchPolicy) (local_ : String) (localMonitors : List Rect)
    (positions : Dict String Point) : Core :=
  refreshOrigins { layout, policy, local_, localMonitors, positions }

def withKeyRules (c : Core) (rules : List Rule) : Core := { c with keyRules := rules }

def withSizes (c : Core) (sizes : Dict String Size) : Core := refreshOrigins { c with sizes := sizes }

/-- A core as the server starts it: any configuration, and nothing handled yet. -/
def IsNew (c : Core) : Prop :=
  ∃ layout policy name monitors positions sizes rules,
    c = ((new layout policy name monitors positions).withSizes sizes).withKeyRules rules

def clientConnected (c : Core) (name : String) (monitors : List Rect) : Core :=
  refreshOrigins { c with connected := c.connected.put name monitors }

def addScreen (c : Core) (name : String) : Core :=
  let (layout, added) := c.layout.addScreen name
  if added then refreshOrigins { c with layout := layout } else c

def setLocalMonitors (c : Core) (monitors : List Rect) : Core :=
  if monitors.isEmpty || monitors = c.localMonitors then c
  else
    refreshOrigins { c with
      localMonitors := monitors
      lastLocalMonitor := c.lastLocalMonitor.filter fun m => monitors.contains m }

def setPositions (c : Core) (positions : Dict String Point) : Core :=
  refreshOrigins { c with positions := positions }

def setSizes (c : Core) (sizes : Dict String Size) : Core :=
  refreshOrigins { c with sizes := sizes }

/-- A client went away. If it held the input, take it back. -/
def clientDisconnected (c : Core) (name : String) : Core × List Action :=
  let c := refreshOrigins { c with connected := c.connected.drop name }
  match c.state with
  | .remote screen _ =>
    if screen = name then
      let c := { c with state := .local_, switch := c.switch.switched }
      (c, [.capture (.ungrab c.localCenter)])
    else (c, [])
  | .local_ => (c, [])

/-! ## Transitions

Entering a screen and leaving one, with the messages each sends. -/

/-- A message for the client that has the input, if one does. -/
def forward (c : Core) (msg : ServerMsg) : List Action :=
  match c.state with
  | .remote screen _ => [.send screen msg]
  | .local_ => []

/-- Hand the cursor to `target` (devices are, or are about to be, grabbed). -/
def enterFromRemote (c : Core) (target : String) (at_ : Point) : Core × List Action :=
  let seq := c.seq + 1
  ({ c with seq := seq, switch := c.switch.switched, state := .remote target at_ },
    [.send target (.enter at_.x at_.y seq .empty)])

/-- Local to remote: grab the devices and tell the client the cursor is there. -/
def enter (c : Core) (target : String) (at_ : Point) : Core × List Action :=
  let (c, actions) := c.enterFromRemote target at_
  (c, .capture .grab :: actions)

/-- Remote to local at `at_`. -/
def goLocal (c : Core) (from_ : String) (at_ : Point) : Core × List Action :=
  ({ c with state := .local_, switch := c.switch.switched },
    [.send from_ .leave, .capture (.ungrab at_)])

/-! ## Local mode -/

/-- The first edge of `m` the pointer pushes at that another machine lies beyond. -/
def crossing (c : Core) (m : Rect) (p : Point) (jump : Int) : Option (Edge × String × Point) :=
  Edge.all.findSome? fun edge =>
    if !atEdge m p edge jump then none
    else
      let probe := stepTowards p edge jump
      -- a seam between two of our own monitors
      if c.localMonitors.any fun x => x.contains probe then none
      else
        let desk := (c.frame c.local_).toDesk probe
        (c.locate desk c.local_).map fun (name, q) => (edge, name, q)

def onPointer (c : Core) (p : Point) (nowMs : Nat) : Core × List Action :=
  match c.state with
  | .remote _ _ => (c, []) -- stale sample from before the grab
  | .local_ =>
    match c.localMonitors.find? fun m => m.contains p with
    | none => (c, [])
    | some m =>
      let c := { c with lastLocalMonitor := some m }
      match c.crossing m p (max c.policy.jumpZone 1) with
      | none => ({ c with switch := c.switch.leftEdge }, [])
      | some (edge, target, q) =>
        let inCorner := nearCorner m p edge c.policy.cornerSize
        let (switch, decision) := c.switch.evaluate c.policy nowMs edge true inCorner
        let c := { c with switch := switch }
        match decision with
        | .switch => c.enter target q
        | .wait | .blocked => (c, [])

/-- The nearest connected machine on the desk, ties broken by name. -/
def hotkeyTarget (c : Core) : Option String :=
  let lc := (c.frame c.local_).toDesk
    (match Rect.unionAll c.localMonitors with | some r => r.center | none => ⟨0, 0⟩)
  let ranked := c.connected.entries.filterMap fun e =>
    (Rect.unionAll e.2).map fun r => (sqDist ((c.frame e.1).toDesk r.center) lc, e.1)
  (ranked.foldl (fun (best : Option (Int × String)) r =>
    match best with
    | none => some r
    | some b => if r.1 < b.1 ∨ (r.1 = b.1 ∧ r.2 < b.2) then some r else some b) none).map (·.2)

def onHotkey (c : Core) : Core × List Action :=
  match c.state with
  | .remote screen _ => c.goLocal screen c.localCenter
  | .local_ =>
    match c.hotkeyTarget with
    | some t =>
      let mid := match Rect.unionAll ((c.connected.get? t).getD []) with
        | some r => r.center
        | none => ⟨0, 0⟩
      c.enter t (c.snapInto t mid)
    | none => (c, [])

def onGrabFailed (c : Core) : Core × List Action :=
  match c.state with
  | .remote screen _ =>
    ({ c with state := .local_, switch := c.switch.switched }, [.send screen .leave])
  | .local_ => (c, [])

/-! ## Remote mode -/

/-- The move would leave `screen`'s monitors at `moved`, and `next` is there on the desk: put
the client's cursor on the edge it leaves through, then hand over. -/
def crossTo (c : Core) (screen : String) (mons : List Rect) (moved : Point) (next : String)
    (q : Point) : Core × List Action :=
  let edge := nearestPoint moved mons
  let toEdge : Action := .send screen (.mouse (.moveAbs edge.x edge.y))
  if next = c.local_ then
    let jump := max c.policy.jumpZone 1
    let lm := match c.localMonitors.find? fun m => m.contains q with
      | some m => m
      | none => c.localMonitors.headD ⟨0, 0, 0, 0⟩
    let (c, actions) := c.goLocal screen (insetClamp q lm (jump + 1))
    (c, toEdge :: actions)
  else
    let (c, actions) := c.enterFromRemote next q
    (c, toEdge :: .send screen .leave :: actions)

/-- The cursor stays on `screen`, at `newPos`. -/
def moveTo (c : Core) (screen : String) (newPos : Point) : Core × List Action :=
  ({ c with state := .remote screen newPos }, [.send screen (.mouse (.moveAbs newPos.x newPos.y))])

def onMotion (c : Core) (dx dy : Int) : Core × List Action :=
  match c.state with
  | .local_ => (c, [])
  | .remote screen pos =>
    let mons := c.monitorsOf screen
    if mons.isEmpty then (c, [])
    else
      -- The client may have re-arranged its monitors under the cursor.
      let pos := nearestPoint pos mons
      let moved : Point := ⟨pos.x + dx, pos.y + dy⟩
      if mons.any fun m => m.contains moved then c.moveTo screen moved
      else
        match c.locate ((c.frame screen).toDesk moved) screen with
        | some (next, q) => c.crossTo screen mons moved next q
        | none => c.moveTo screen (nearestPoint moved mons)

/-! ## Keys -/

def asAction (hid : Nat) (action : KeyAction) : ServerMsg := .key ⟨hid, none, .empty, action⟩

/-- Let go, on the client, of every key of the modifiers in `mods`. -/
def releaseModifiers (c : Core) (mods : ModMask) : List Action :=
  MODIFIER_KEYS.flatMap fun (bit, keys) =>
    if mods.contains bit then keys.flatMap fun hid => c.forward (asAction hid .up) else []

/-- A key for the client. One that completes a rule's combination goes as its action alone. -/
def onKey (c : Core) (k : KeyEvent) : Core × List Action :=
  match c.fired.get? k.hid with
  | some action =>
    let c := if k.action = .up then { c with fired := c.fired.drop k.hid } else c
    (c, c.forward (asAction action k.action))
  | none =>
    let rule := if k.action = .down ∧ c.activeRemote.isSome then
        c.keyRules.find? fun r => r.matches k.hid k.mods
      else none
    match rule with
    | none => (c, c.forward (.key k))
    | some rule =>
      ({ c with fired := c.fired.put k.hid rule.action },
        c.releaseModifiers rule.mods ++ c.forward (asAction rule.action .down))

def handle (c : Core) (ev : CaptureEvent) (nowMs : Nat) : Core × List Action :=
  match ev with
  | .pointer p => c.onPointer p nowMs
  | .hotkey => c.onHotkey
  | .grabFailed => c.onGrabFailed
  | .motion dx dy => c.onMotion dx dy
  | .button button down => (c, c.forward (.mouse (.button button down)))
  | .wheel dx dy => (c, c.forward (.mouse (.wheel dx dy)))
  | .key k => c.onKey k

/-! ## The loop around the core

A reaction's actions are done one at a time, and a send may find the client gone. -/

/-- What `run_shared` does with a change the hub reports. -/
def onHubEvent (c : Core) : HubEvent → Core × List Action
  | .connected name monitors => (c.clientConnected name monitors, [])
  | .positions positions => (c.setPositions positions, [])
  | .sizes sizes => (c.setSizes sizes, [])
  | .screenAdded name => (c.addScreen name, [])
  | .localMonitors monitors => (c.setLocalMonitors monitors, [])
  | .disconnected name => c.clientDisconnected name

end Core

/-- Where `run_shared` stands: the core, and the actions of the event it is handling that are
still to be carried out. The next event is taken when there are none. -/
structure Turn where
  core : Core
  pending : List Action := []

namespace Turn

/-- Take an event off one of the two channels. -/
def take (t : Turn) (react : Core → Core × List Action) : Option Turn :=
  if t.pending.isEmpty then
    let (core, actions) := react t.core
    some ⟨core, actions⟩
  else none

/-- What carrying out the first pending action does to the world outside the router. -/
inductive Effect where
  | command (cmd : CaptureCmd)
  | message (to_ : String) (msg : ServerMsg)
deriving DecidableEq, Repr

/-- Carry out the first pending action. `sendOk name` says whether the hub has a client of
that name: a client that vanished between events is handled as disconnected, and what that
gives is carried out last. -/
def act (t : Turn) (sendOk : String → Bool) : Option (Turn × Option Effect) :=
  match t.pending with
  | [] => none
  | .capture cmd :: rest => some (⟨t.core, rest⟩, some (.command cmd))
  | .send to_ msg :: rest =>
    if sendOk to_ then some (⟨t.core, rest⟩, some (.message to_ msg))
    else
      let (core, more) := t.core.clientDisconnected to_
      some (⟨core, rest ++ more⟩, none)

/-- An event is taken with nothing pending, and its actions are then what is pending. -/
theorem take_eq {t t' : Turn} {react : Core → Core × List Action} (h : t.take react = some t') :
    t.pending = [] ∧ t' = ⟨(react t.core).1, (react t.core).2⟩ := by
  unfold take at h
  split at h
  · next hempty => exact ⟨List.isEmpty_iff.mp hempty, (Option.some.inj h).symm⟩
  · cases h

/-- The outcomes of carrying out an action. -/
inductive Acts (t : Turn) (sendOk : String → Bool) : Turn → Option Effect → Prop where
  | command {cmd : CaptureCmd} {rest : List Action} (hp : t.pending = .capture cmd :: rest) :
      Acts t sendOk ⟨t.core, rest⟩ (some (.command cmd))
  | sent {to_ : String} {msg : ServerMsg} {rest : List Action}
      (hp : t.pending = .send to_ msg :: rest) (hok : sendOk to_ = true) :
      Acts t sendOk ⟨t.core, rest⟩ (some (.message to_ msg))
  | vanished {to_ : String} {msg : ServerMsg} {rest : List Action}
      (hp : t.pending = .send to_ msg :: rest) (hok : sendOk to_ = false) :
      Acts t sendOk
        ⟨(t.core.clientDisconnected to_).1, rest ++ (t.core.clientDisconnected to_).2⟩ none

/-- Every step of the router's turn is one of those of `Acts`. -/
theorem acts_of_act {t t' : Turn} {sendOk : String → Bool} {effect : Option Effect}
    (h : t.act sendOk = some (t', effect)) : Acts t sendOk t' effect := by
  unfold act at h
  split at h
  · cases h
  · next cmd rest hp =>
    rw [Option.some.injEq, Prod.mk.injEq] at h
    obtain ⟨rfl, rfl⟩ := h
    exact .command hp
  · next to_ msg rest hp =>
    split at h
    · next hok =>
      rw [Option.some.injEq, Prod.mk.injEq] at h
      obtain ⟨rfl, rfl⟩ := h
      exact .sent hp hok
    · next hok =>
      rw [Option.some.injEq, Prod.mk.injEq] at h
      obtain ⟨rfl, rfl⟩ := h
      exact .vanished hp (Bool.not_eq_true _ ▸ hok)

end Turn

end GeserDesk
