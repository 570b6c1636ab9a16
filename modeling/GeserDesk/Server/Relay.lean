import GeserDesk.Clipboard.Sharing
import GeserDesk.Server.Files

/-!
# The server's part in clipboard sharing

`geserdesk-server/src/clipboard.rs`: one task relays every copy, so a transfer is never
interleaved with another on any client's queue. A copy of files is announced, to whoever pushed
it too: that is how it learns the number the server assigned.
-/

namespace GeserDesk

/-- The messages that push `content` as transfer `seq`. -/
def SharingConfig.messages (cfg : SharingConfig) (seq : Nat) (content : ClipboardContent) :
    List ServerMsg :=
  .clipboardGrab .clipboard seq
    :: (Chunk.stream (cfg.codec.encode content)).map (.clipboardData .clipboard seq)

/-- The messages of a broadcast are the parts of a push, as the server sends them. -/
theorem SharingConfig.messages_eq (cfg : SharingConfig) (seq : Nat) (content : ClipboardContent) :
    cfg.messages seq content = (pushes cfg.codec seq content).map Push.server := by
  unfold messages pushes
  rw [List.map_cons, List.map_map]
  rfl

/-- Where the relay stands in a broadcast. -/
inductive RelayPc where
  | idle
  /-- The messages are made; the screens turned off are to be read. -/
  | toRead (except_ : Option String) (msgs : List ServerMsg)
  /-- They were, and the messages are to be queued. -/
  | toQueue (except_ : Option String) (off : Finset String) (msgs : List ServerMsg)
deriving DecidableEq

/-- What the relay makes of a clipboard a client pushed. -/
inductive Relayed where
  /-- Files, and sharing files is off. -/
  | dropped
  | announced (manifest : FileManifest)
  /-- Data, for the server's own clipboard and every other client's. -/
  | applied
deriving DecidableEq

def SharingConfig.relay (cfg : SharingConfig) (content : ClipboardContent) : Relayed :=
  match content.files cfg.codec with
  | some manifest => if cfg.options.clipboardFiles then .announced manifest else .dropped
  | none => .applied

end GeserDesk
