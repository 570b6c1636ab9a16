import GeserDesk.Lib.Dict
import GeserDesk.Proto.Message
import Mathlib.Data.Finset.Basic

/-!
# The registry of connected clients

`geserdesk-server/src/hub.rs`. Everyone but a client's own session reaches it through a queue
held here. The queues carry any message type `M`; the server's carry `ServerMsg`.

Each method is given whole, and the ones of several lock sections also section by section
(`insertClient` and `announce` make up `register`, `setMonitorsEntry` and `announce` make up
`setMonitors`, `flipDisabled` and `tellRouter` make up `setDisabled`, `removeClient` and
`sayGone` make up `unregister`, a look at `disabled` and `queueAll` make up `broadcastExcept`, one
at `isDisabled` and `sendClipboard` make up `clipboardIn`), so that a system can interleave the
sections.
-/

namespace GeserDesk

/-- Connection changes the router needs to know about. -/
inductive HubEvent where
  /-- A client connected (or reported a new monitor arrangement). -/
  | connected (name : String) (monitors : List Rect)
  | disconnected (name : String)
  | positions (positions : Dict String Point)
  | sizes (sizes : Dict String Size)
  | localMonitors (monitors : List Rect)
  | screenAdded (name : String)

/-- A clipboard a client pushed, for the relay to apply and pass on. -/
structure SharedClip where
  from_ : String
  content : ClipboardContent
deriving DecidableEq, Repr

/-- One registered client: what is queued for it, oldest first, and its monitors. -/
structure Entry (M : Type) where
  outbox : List M
  monitors : List Rect

structure Hub (M : Type) where
  clients : Dict String (Entry M) := ∅
  /-- Screens approved while the server runs, beyond those in the config. -/
  added : List String := []
  /-- Screens turned off: they stay connected, but the router does not know them. -/
  disabled : Finset String := ∅
  /-- The channel of connection changes: everything sent on it so far. -/
  events : List HubEvent := []
  /-- The channel of pushed clipboards: what the relay has not taken yet. -/
  clipboard : List SharedClip := []

namespace Hub

variable {M : Type}

def contains (h : Hub M) (name : String) : Bool := (h.clients.get? name).isSome

def isDisabled (h : Hub M) (name : String) : Bool := decide (name ∈ h.disabled)

/-- Send a change to the router. -/
def emit (h : Hub M) (ev : HubEvent) : Hub M := { h with events := h.events ++ [ev] }

/-! ## Lock sections

What happens while the lock is held. Between two of these anything may come. -/

/-- `register`, first section: take the name, or `none` if it is taken. -/
def insertClient (h : Hub M) (name : String) (monitors : List Rect) : Option (Hub M) :=
  if h.contains name then none
  else some { h with clients := h.clients.put name ⟨[], monitors⟩ }

/-- `register` and `set_monitors`, last step: tell the router of a client's monitors. -/
def announce (h : Hub M) (name : String) (monitors : List Rect) : Hub M :=
  h.emit (.connected name monitors)

/-- `set_monitors`, first section: whether the list changed, and is now the given one. -/
def setMonitorsEntry (h : Hub M) (name : String) (monitors : List Rect) : Hub M × Bool :=
  match h.clients.get? name with
  | some entry =>
    if entry.monitors = monitors then (h, false)
    else ({ h with clients := h.clients.put name { entry with monitors := monitors } }, true)
  | none => (h, false)

/-- `set_disabled`, first section: whether the set changed. -/
def flipDisabled (h : Hub M) (name : String) (disabled : Bool) : Hub M × Bool :=
  if disabled then
    if name ∈ h.disabled then (h, false) else ({ h with disabled := insert name h.disabled }, true)
  else
    if name ∈ h.disabled then ({ h with disabled := h.disabled.erase name }, true) else (h, false)

/-- `set_disabled`, second section: a client that is connected stays connected; the router is
told it went away or that it arrived, with the monitors it last reported. -/
def tellRouter (h : Hub M) (name : String) (disabled : Bool) : Hub M :=
  match h.clients.get? name with
  | some entry =>
    if disabled then h.emit (.disconnected name) else h.emit (.connected name entry.monitors)
  | none => h

/-- `unregister`, first section. -/
def removeClient (h : Hub M) (name : String) : Hub M := { h with clients := h.clients.drop name }

/-- `unregister`, last step. -/
def sayGone (h : Hub M) (name : String) : Hub M := h.emit (.disconnected name)

/-- `broadcast_except`, second section: queue `msgs`, in order and without anything else between
them, for every client except `except_` and those of `off`, the screens turned off as they were
read. -/
def queueAll (h : Hub M) (except_ : Option String) (off : Finset String) (msgs : List M) : Hub M :=
  { h with clients := h.clients.mapVals fun name entry =>
      if some name ≠ except_ ∧ name ∉ off then { entry with outbox := entry.outbox ++ msgs }
      else entry }

/-- `clipboard_in`, second section. -/
def sendClipboard (h : Hub M) (from_ : String) (content : ClipboardContent) : Hub M :=
  { h with clipboard := h.clipboard ++ [⟨from_, content⟩] }

/-! ## Methods -/

def register (h : Hub M) (name : String) (monitors : List Rect) : Option (Hub M) :=
  match h.insertClient name monitors with
  | none => none
  | some h => some (if h.isDisabled name then h else h.announce name monitors)

/-- Queue `msg` for client `name`; `false` if it is not connected. -/
def send (h : Hub M) (name : String) (msg : M) : Hub M × Bool :=
  match h.clients.get? name with
  | some entry =>
    ({ h with clients := h.clients.put name { entry with outbox := entry.outbox ++ [msg] } }, true)
  | none => (h, false)

/-- Turn a screen off or on. -/
def setDisabled (h : Hub M) (name : String) (disabled : Bool) : Hub M :=
  let (h, changed) := h.flipDisabled name disabled
  if changed then h.tellRouter name disabled else h

/-- Tell client `name` its connection is over and why. -/
def disconnect (h : Hub ServerMsg) (name : String) (reason : CloseReason) : Hub ServerMsg × Bool :=
  h.send name (.close reason)

/-- Queue `msgs` for every client except `except_` and the ones turned off. -/
def broadcastExcept (h : Hub M) (except_ : Option String) (msgs : List M) : Hub M :=
  h.queueAll except_ h.disabled msgs

/-- Update a client's monitor list. -/
def setMonitors (h : Hub M) (name : String) (monitors : List Rect) : Hub M :=
  let (h, changed) := h.setMonitorsEntry name monitors
  if changed && !h.isDisabled name then h.announce name monitors else h

/-- A client finished pushing its clipboard. -/
def clipboardIn (h : Hub M) (from_ : String) (content : ClipboardContent) : Hub M :=
  if h.isDisabled from_ then h else h.sendClipboard from_ content

def unregister (h : Hub M) (name : String) : Hub M := (h.removeClient name).sayGone name

/-- A machine that was not in the config has been approved; `false` if it was already added. -/
def addScreen (h : Hub M) (name : String) : Hub M × Bool :=
  if h.added.any (· == name) then (h, false)
  else ({ h with added := h.added ++ [name] }.emit (.screenAdded name), true)

/-! ## What a section leaves alone

Frame lemmas: which names, queues and settings a section does not touch. -/

@[simp] theorem emit_clients (h : Hub M) (ev : HubEvent) : (h.emit ev).clients = h.clients := rfl
@[simp] theorem emit_disabled (h : Hub M) (ev : HubEvent) : (h.emit ev).disabled = h.disabled := rfl
@[simp] theorem emit_events (h : Hub M) (ev : HubEvent) :
    (h.emit ev).events = h.events ++ [ev] := rfl

/-- A name is registered just if it has an entry. -/
theorem contains_iff (h : Hub M) (name : String) :
    h.contains name = true ↔ ∃ e, h.clients.get? name = some e := Option.isSome_iff_exists

/-- What is queued for a client after a send: one more message for the one it was for. -/
theorem send_get? (h : Hub M) (name other : String) (msg : M) :
    (h.send name msg).1.clients.get? other =
      if other = name then
        (h.clients.get? name).map fun e => { e with outbox := e.outbox ++ [msg] }
      else h.clients.get? other := by
  unfold send
  cases hc : h.clients.get? name with
  | none =>
    by_cases ho : other = name
    · rw [if_pos ho, ho]; exact hc
    · rw [if_neg ho]
  | some e =>
    simp only [Dict.get?_put]
    by_cases ho : other = name
    · rw [if_pos ho, if_pos ho]; rfl
    · rw [if_neg ho, if_neg ho]

/-- Sending registers and unregisters nobody. -/
theorem contains_send (h : Hub M) (name other : String) (msg : M) :
    (h.send name msg).1.contains other = h.contains other := by
  unfold contains
  rw [send_get?]
  split
  · next ho => rw [ho, Option.isSome_map]
  · rfl

/-- A send is accepted just if its client is registered. -/
theorem send_ok_iff (h : Hub M) (name : String) (msg : M) :
    (h.send name msg).2 = true ↔ ∃ e, h.clients.get? name = some e := by
  unfold send
  cases h.clients.get? name with
  | none => simp
  | some e => simp

/-- A broadcast is queued for everybody it is for, and nobody's entry is lost. -/
theorem queueAll_get? (h : Hub M) (except_ : Option String) (off : Finset String)
    (msgs : List M) (name : String) :
    (h.queueAll except_ off msgs).clients.get? name =
      (h.clients.get? name).map fun e =>
        if some name ≠ except_ ∧ name ∉ off then { e with outbox := e.outbox ++ msgs } else e :=
  Dict.get?_mapVals _ _ _

/-- Registering takes a free name, with an empty queue. -/
theorem register_eq {h h' : Hub M} {name : String} {monitors : List Rect}
    (hreg : h.register name monitors = some h') :
    h.clients.get? name = none ∧ h'.clients = h.clients.put name ⟨[], monitors⟩
      ∧ h'.disabled = h.disabled ∧ h'.clipboard = h.clipboard := by
  unfold register insertClient contains at hreg
  cases hfree : h.clients.get? name with
  | some e => simp [hfree] at hreg
  | none =>
    simp only [hfree, Option.isSome_none, Bool.false_eq_true, if_false, Option.some.injEq] at hreg
    refine ⟨rfl, ?_⟩
    rw [← hreg]
    split <;> exact ⟨rfl, rfl, rfl⟩

/-- A send touches neither the screens turned off nor the pushes. -/
theorem send_frame (h : Hub M) (name : String) (msg : M) :
    (h.send name msg).1.disabled = h.disabled ∧ (h.send name msg).1.clipboard = h.clipboard := by
  unfold send
  split <;> exact ⟨rfl, rfl⟩

/-- New monitors touch neither the screens turned off nor the pushes. -/
theorem setMonitors_frame (h : Hub M) (name : String) (monitors : List Rect) :
    (h.setMonitors name monitors).disabled = h.disabled
      ∧ (h.setMonitors name monitors).clipboard = h.clipboard := by
  unfold setMonitors setMonitorsEntry
  cases h.clients.get? name with
  | none => exact ⟨rfl, rfl⟩
  | some entry =>
    dsimp only
    split
    · exact ⟨rfl, rfl⟩
    · dsimp only
      split <;> exact ⟨rfl, rfl⟩

/-- New monitors are the client's from then on. -/
theorem setMonitors_get? (h : Hub M) (name other : String) (monitors : List Rect) :
    (h.setMonitors name monitors).clients.get? other
      = (h.clients.get? other).map fun e =>
        if other = name then { e with monitors := monitors } else e := by
  unfold setMonitors setMonitorsEntry
  cases hc : h.clients.get? name with
  | none =>
    dsimp only
    by_cases ho : other = name
    · rw [Bool.false_and, if_neg (by simp), ho, hc]; rfl
    · rw [Bool.false_and, if_neg (by simp)]
      simp only [if_neg ho]
      exact Option.map_id'.symm
  | some entry =>
    dsimp only
    have hself : (h.clients.get? other).map (fun e => if other = name then
        { e with monitors := monitors } else e)
        = if other = name then some { entry with monitors := monitors }
          else h.clients.get? other := by
      split
      · next ho => rw [ho, hc]; rfl
      · exact Option.map_id'
    rw [hself]
    split
    · next heq =>
      rw [Bool.false_and, if_neg (by simp)]
      split
      · next ho => rw [ho, hc, ← heq]
      · rfl
    · have hput : (h.clients.put name { entry with monitors := monitors }).get? other
          = if other = name then some { entry with monitors := monitors }
            else h.clients.get? other := Dict.get?_put _ _ _ _
      rw [← hput]
      split <;> rfl

/-- Turning a screen off or on changes that set and neither the clients nor the pushes. -/
theorem setDisabled_frame (h : Hub M) (name : String) (disabled : Bool) :
    (h.setDisabled name disabled).clients = h.clients
      ∧ (h.setDisabled name disabled).clipboard = h.clipboard
      ∧ (h.setDisabled name disabled).disabled
        = if disabled then insert name h.disabled else h.disabled.erase name := by
  have htell : ∀ (h : Hub M) (d : Bool), (h.tellRouter name d).clients = h.clients
      ∧ (h.tellRouter name d).clipboard = h.clipboard
      ∧ (h.tellRouter name d).disabled = h.disabled := by
    intro h d
    unfold tellRouter
    split
    · split <;> exact ⟨rfl, rfl, rfl⟩
    · exact ⟨rfl, rfl, rfl⟩
  unfold setDisabled flipDisabled
  cases disabled with
  | true =>
    by_cases hmem : name ∈ h.disabled
    · simp [hmem]
    · simp only [if_true, if_neg hmem]
      exact htell _ _
  | false =>
    by_cases hmem : name ∈ h.disabled
    · simp only [Bool.false_eq_true, if_false, if_pos hmem, if_true]
      exact htell _ _
    · simp [hmem]

end Hub

end GeserDesk
