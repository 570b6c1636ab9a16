import GeserDesk.Clipboard.FileOwner
import GeserDesk.Lib.Dict
import GeserDesk.Proto.Message

/-!
# The client's side of file requests

`FileChannel` of `geserdesk-client/src/files.rs`: a pull asks for reads under numbers of its own,
and an answer finds its way back by the number. Each connection has a channel of its own, whose
numbers start at 1. The type `T` of what a waiting read holds is a parameter.
-/

namespace GeserDesk

/-- The session's side of outgoing file requests. -/
structure FileChannel (T : Type) where
  nextReq : Nat := 1
  pending : Dict Nat T := ∅

namespace FileChannel

variable {T : Type}

/-- Ask the server for a chunk: the request's number, and the message to queue. -/
def read (ch : FileChannel T) (tx : T) (a : ReadArgs) : FileChannel T × ClientMsg :=
  ({ nextReq := ch.nextReq + 1, pending := ch.pending.put ch.nextReq tx },
    .fileRead a.seq ch.nextReq a.index a.offset a.len)

/-- The call that made the request ended, with or without an answer. -/
def forget (ch : FileChannel T) (req : Nat) : FileChannel T :=
  { ch with pending := ch.pending.drop req }

/-- A `FileReply` arrived: wake whichever read sent `req`, if it still waits. -/
def reply (ch : FileChannel T) (req : Nat) : FileChannel T × Option T :=
  ({ ch with pending := ch.pending.drop req }, ch.pending.get? req)

end FileChannel

end GeserDesk
