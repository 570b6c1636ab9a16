import GeserDesk.Clipboard.FileOwner
import GeserDesk.Clipboard.Sharing

/-!
# The client's part in clipboard sharing

`ClientClipboard` of `geserdesk-client/src/net.rs`, on a machine whose clipboard can be shared, with
the options the server sent it. What a look at the clipboard finds is an argument.
-/

namespace GeserDesk

/-- The clipboard side of one connection. -/
structure ClientClipboard where
  inbound : Inbound := {}
  /-- Numbers this client's pushes. -/
  seq : Nat := 0
  filesOwner : FileOwner := {}
  /-- What this machine copied and pushed, until the echo confirms its `seq`. -/
  pendingOwnFiles : Option (FileManifest × List String) := none
  /-- The most recent files announcement worth pulling when the cursor arrives here. -/
  remoteFiles : Option (Nat × FileManifest) := none
  lastPulledSeq : Option Nat := none
deriving DecidableEq, Repr

namespace ClientClipboard

variable (cfg : SharingConfig) (c : ClientClipboard)

/-- Push `content`, under this client's next number. -/
def push (content : ClipboardContent) : ClientClipboard × List Push :=
  ({ c with seq := c.seq + 1 }, pushes cfg.codec (c.seq + 1) content)

/-- Whether a copy of files is looked for: not while a push of some is unconfirmed. -/
def looksForFiles : Bool := cfg.options.clipboardFiles && c.pendingOwnFiles.isNone

/-- The messages that push a copy made on this machine since the last look, which found `files`
and `data` new. -/
def changed (files : Option (FileManifest × List String)) (data : Option ClipboardContent) :
    ClientClipboard × List Push :=
  match (if c.looksForFiles cfg then files else none) with
  | some (manifest, abs) =>
    { c with pendingOwnFiles := some (manifest, abs) }.push cfg (.withFiles cfg.codec manifest)
  | none =>
    match (if cfg.options.clipboardSharing then data else none) with
    | some content => c.push cfg content
    | none => (c, [])

/-- A manifest arrived, whole: this client's own push echoed back, or one to pull. -/
def onFilesAnnounced (seq : Nat) (manifest : FileManifest) : ClientClipboard :=
  if !cfg.options.clipboardFiles then c
  else match c.pendingOwnFiles with
    | some (mine, abs) => { c with
        pendingOwnFiles := none
        filesOwner := if mine = manifest then c.filesOwner.set seq mine abs else c.filesOwner
        remoteFiles := none }
    | none => { c with remoteFiles := some (seq, manifest) }

def grab (id : ClipboardId) (seq : Nat) : ClientClipboard :=
  if cfg.reassembles then { c with inbound := c.inbound.grab id seq cfg.maxBytes } else c

/-- One chunk, and what it has put on this machine's clipboard. -/
def data (id : ClipboardId) (seq : Nat) (chunk : Chunk) :
    ClientClipboard × Option ClipboardContent :=
  if !cfg.reassembles then (c, none)
  else match c.inbound.data cfg.codec id seq chunk with
    | (inbound, .ok (some content)) =>
      let c := { c with inbound := inbound }
      match content.files cfg.codec with
      | some manifest => (c.onFilesAnnounced cfg seq manifest, none)
      | none => (c, if cfg.options.clipboardSharing then some content else none)
    | (inbound, _) => ({ c with inbound := inbound }, none)

/-- The cursor arrived: what to pull, if there is something and it was not pulled already. -/
def pullOnEnter : ClientClipboard × Option (Nat × FileManifest) :=
  if !cfg.options.clipboardFiles then (c, none)
  else match c.remoteFiles with
    | none => (c, none)
    | some (seq, manifest) =>
      if c.lastPulledSeq = some seq then (c, none)
      else ({ c with lastPulledSeq := some seq }, some (seq, manifest))

/-- What `grab` and `data` make of one message of a push. -/
def hear : Push → ClientClipboard
  | .grab id seq => c.grab cfg id seq
  | .data id seq chunk => (c.data cfg id seq chunk).1

/-- **What a message of a push does**: it is taken in, and if it completes one of files these are
announced. -/
theorem hear_eq (p : Push) :
    c.hear cfg p = match (cfg.take c.inbound p).2 with
      | none => { c with inbound := (cfg.take c.inbound p).1 }
      | some (seq, content) =>
        match content.files cfg.codec with
        | some manifest =>
          { c with inbound := (cfg.take c.inbound p).1 }.onFilesAnnounced cfg seq manifest
        | none => { c with inbound := (cfg.take c.inbound p).1 } := by
  unfold SharingConfig.take
  by_cases hon : cfg.reassembles = true
  · rw [if_pos hon]
    cases p with
    | grab id seq =>
      show c.grab cfg id seq = _
      rw [grab, if_pos hon]
      rfl
    | data id seq chunk =>
      show (c.data cfg id seq chunk).1 = _
      rw [data, hon]
      dsimp only [Inbound.take]
      generalize c.inbound.data cfg.codec id seq chunk = received
      rcases received with ⟨i, e | _ | content⟩
      · rfl
      · rfl
      · dsimp only
        cases content.files cfg.codec <;> rfl
  · rw [if_neg hon]
    rw [Bool.not_eq_true] at hon
    cases p with
    | grab id seq =>
      show c.grab cfg id seq = _
      rw [grab, hon]
      rfl
    | data id seq chunk =>
      show (c.data cfg id seq chunk).1 = _
      rw [data, hon]
      rfl

end ClientClipboard

end GeserDesk
