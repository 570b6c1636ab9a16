import GeserDesk.Proto.Input
import GeserDesk.Proto.Clipboard

/-!
# The two top-level message types

`geserdesk-proto/src/message.rs`: the server owns the physical keyboard and mouse, clients
receive synthesized input.
-/

namespace GeserDesk

structure Version where
  major : Nat
  minor : Nat
deriving DecidableEq, Repr

/-- The protocol version this build speaks. -/
def protocolVersion : Version := ⟨4, 0⟩

/-- The effective version for a session with `other`: same major, the smaller minor. -/
def Version.negotiate (v other : Version) : Option Version :=
  if v.major ≠ other.major then none else some ⟨v.major, min v.minor other.minor⟩

/-- Runtime options the server pushes to clients. -/
structure Options where
  clipboardSharing : Bool := true
  /-- Cap on a single shared clipboard payload, in bytes (0 = the built-in ceiling). -/
  clipboardMaxBytes : Nat := 0
  scrollLockLocks : Bool := true
  screensaverSync : Bool := false
  relativeMouseMoves : Bool := true
  clipboardFiles : Bool := true
  /-- Cap on the total size of files pulled for one copy (0 = the built-in ceiling). -/
  clipboardFilesMaxBytes : Nat := 0
deriving DecidableEq, Repr

/-- Why the server closed a connection. -/
inductive CloseReason where
  | serverShutdown | timeout | protocolError | reconfigured
deriving DecidableEq, Repr

/-- Messages sent by a client to the server. -/
inductive ClientMsg where
  | hello (version : Version) (screen : ScreenInfo)
  | screenChanged (info : ScreenInfo)
  | clipboardGrab (id : ClipboardId) (seq : Nat)
  | clipboardData (id : ClipboardId) (seq : Nat) (chunk : Chunk)
  | fileRead (seq req index offset len : Nat)
  | fileReply (req : Nat) (result : FileReadResult)
  | keepAlive
deriving DecidableEq, Repr

/-- Messages sent by the server to a client. -/
inductive ServerMsg where
  | welcome (version : Version) (keepaliveMs : Nat)
  | incompatible (serverVersion : Version)
  | rejected (reason : String)
  | enter (x y : Int) (seq : Nat) (toggleMods : ModMask)
  | leave
  | key (ev : KeyEvent)
  | mouse (ev : MouseEvent)
  | clipboardGrab (id : ClipboardId) (seq : Nat)
  | clipboardData (id : ClipboardId) (seq : Nat) (chunk : Chunk)
  | fileRead (seq req index offset len : Nat)
  | fileReply (req : Nat) (result : FileReadResult)
  | setOptions (options : Options)
  | close (reason : CloseReason)
  | keepAlive
deriving DecidableEq, Repr

end GeserDesk
