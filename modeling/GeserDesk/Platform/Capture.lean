import GeserDesk.Proto.Input

/-!
# Input capture — the commands, the events and the backend that answers them

`geserdesk-platform/src/lib.rs` and the command handling that `x11.rs` and `windows.rs`
share. A backend runs on its own thread: commands reach it through one queue, what it
observes leaves through another.
-/

namespace GeserDesk

/-- Something the capture backend observed. -/
inductive CaptureEvent where
  /-- The local pointer moved (only while not grabbed). -/
  | pointer (p : Point)
  /-- Relative motion while grabbed. -/
  | motion (dx dy : Int)
  | button (button : Button) (down : Bool)
  | wheel (dx dy : Int)
  | key (k : KeyEvent)
  | hotkey
  /-- A `grab` could not take the pointer or keyboard. -/
  | grabFailed
deriving DecidableEq, Repr

/-- An instruction for the capture backend. -/
inductive CaptureCmd where
  | grab
  | ungrab (warp : Point)
deriving DecidableEq, Repr

/-- The part of a backend its commands change: whether it holds the devices. -/
structure Backend where
  grabbed : Bool := false
deriving DecidableEq, Repr

/-- `Capture::on_cmd`. Whether a grab succeeds is the operating system's choice, `grabOk`; a
grab while grabbed does nothing, and an ungrab always releases. -/
def Backend.onCmd (b : Backend) (grabOk : Bool) : CaptureCmd → Backend × List CaptureEvent
  | .grab =>
    if b.grabbed then (b, [])
    else if grabOk then ({ b with grabbed := true }, [])
    else (b, [.grabFailed])
  | .ungrab _ => ({ b with grabbed := false }, [])

end GeserDesk
