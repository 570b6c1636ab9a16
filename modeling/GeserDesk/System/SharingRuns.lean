import GeserDesk.Lib.Unwinding
import GeserDesk.Server.Handshake
import GeserDesk.Server.Relay

/-!
# Runs of the server's sharing

The sessions, the relay and the file router over one hub: pushes of clipboards and of files, their
broadcast, file reads and their answers, with any number of clients that connect, leave and are
turned off and on. Each is cut into its lock sections and interleaved in any order. A client may
send any message at any time.

An outbox keeps everything queued since its client registered; what the session has sent of it is
not told apart, as nothing here depends on it.
-/

namespace GeserDesk

/-- What is left of routing a read, or of answering one. -/
inductive Routing where
  /-- `route` found a client the owner. -/
  | enter (owner : String) (waiting : Waiting) (args : ReadArgs)
  | send (owner : String) (req : Nat) (args : ReadArgs)
  /-- The owner was not there; the request is to be taken back. -/
  | retract (req : Nat)
  /-- The server's own files are to be read. -/
  | read (waiting : Waiting) (args : ReadArgs)
  | answer (waiting : Waiting) (result : FileReadResult)
deriving DecidableEq

structure SharingRun where
  hub : Hub ServerMsg := {}
  router : FileRouter Waiting := {}
  /-- What each session has received of a push. -/
  pushed : Dict String Inbound := ∅
  /-- The sessions inside `clipboard_in`, past the check. -/
  handing : Dict String ClipboardContent := ∅
  tasks : Dict Nat Routing := ∅
  nextTask : Nat := 0
  /-- The number of the relay's last transfer. -/
  seq : Nat := 0
  relay : RelayPc := .idle
  /-- What the relay put on the server's own clipboard. -/
  desk : List ClipboardContent := []
  /-- The answers given to the pulls of this process. -/
  pulls : List (Nat × FileReadResult) := []

inductive SharingLabel where
  | connect (name : String) (monitors : List Rect)
  /-- The session's end: `on_disconnected`, whose sections are not told apart here, then the
  dropped registration. -/
  | disconnect (name : String)
  /-- The session of `name` handles a message of its client. -/
  | receive (name : String) (msg : ClientMsg)
  /-- `clipboard_in` passes the push on. -/
  | hand (name : String)
  /-- A pull of this process asks for a chunk. -/
  | request (tx : Nat) (args : ReadArgs)
  | enter (task : Nat)
  | send (task : Nat)
  | retract (task : Nat)
  | read (task : Nat) (disk : Disk)
  | answer (task : Nat)
  /-- The relay takes the next push. -/
  | relay
  /-- The server's own desktop copied data, -/
  | copyData (content : ClipboardContent)
  /-- or files. -/
  | copyFiles (manifest : FileManifest) (abs : List String)
  | readOff
  | queue
  | setDisabled (name : String) (disabled : Bool)

namespace SharingRun

/-- Deliver an answer. -/
def deliver (s : SharingRun) (waiting : Waiting) (result : FileReadResult) : SharingRun :=
  { s with
    hub := FileRouter.deliver .fileReply s.hub waiting result
    pulls := match waiting with
      | .toLocal tx => s.pulls ++ [(tx, result)]
      | .toClient _ _ => s.pulls }

def addTask (s : SharingRun) (t : Routing) : SharingRun :=
  { s with tasks := s.tasks.put s.nextTask t, nextTask := s.nextTask + 1 }

/-- `route`: a read nobody can serve is refused at once. -/
def route (s : SharingRun) (waiting : Waiting) (args : ReadArgs) : SharingRun :=
  match s.router.currentOwner with
  | none => s.deliver waiting (.err .notFound)
  | some .server => s.addTask (.read waiting args)
  | some (.client owner) => s.addTask (.enter owner waiting args)

/-- Take request `req` back, and refuse it. -/
def refuse (s : SharingRun) (req : Nat) : SharingRun :=
  match s.router.take req with
  | (router, some p) => { s with router := router }.deliver p.waiting (.err .notFound)
  | (router, none) => { s with router := router }

/-- `on_disconnected`: if `name` was the owner nobody is now, and what was sent to it is refused. -/
def onDisconnected (s : SharingRun) (name : String) : SharingRun :=
  ((s.router.dropOwner name).stale name).foldl refuse { s with router := s.router.dropOwner name }

/-- What a session does with a message of its client. -/
def receive (cfg : SharingConfig) (s : SharingRun) (name : String) (pushed : Inbound) :
    ClientMsg → SharingRun
  | .clipboardGrab id seq =>
    if cfg.reassembles then
      { s with pushed := s.pushed.put name (pushed.grab id seq cfg.maxBytes) }
    else s
  | .clipboardData id seq chunk =>
    if cfg.reassembles then
      match pushed.data cfg.codec id seq chunk with
      | (pushed, .ok (some content)) =>
        let s := { s with pushed := s.pushed.put name pushed }
        -- `clipboard_in` drops the push of a screen that is turned off
        if cfg.allows content && !s.hub.isDisabled name then
          { s with handing := s.handing.put name content }
        else s
      | (pushed, _) => { s with pushed := s.pushed.put name pushed }
    else s
  | .fileRead seq req index offset len => s.route (.toClient name req) ⟨seq, index, offset, len⟩
  | .fileReply req result =>
    match s.router.take req with
    | (router, some p) =>
      { s with router := router }.addTask
        (.answer p.waiting (FileRouter.reply p.sentTo name result))
    | (router, none) => { s with router := router }
  | .screenChanged info => { s with hub := s.hub.setMonitors name (sanitizeMonitors info) }
  | _ => s

def step (cfg : SharingConfig) (s : SharingRun) : SharingLabel → Option SharingRun
  | .connect name monitors =>
    match s.hub.register name monitors with
    | some hub => some { s with hub := hub, pushed := s.pushed.put name {} }
    | none => none
  | .disconnect name =>
    match s.pushed.get? name, s.handing.get? name with
    | some _, none =>
      let s := s.onDisconnected name
      some { s with hub := s.hub.unregister name, pushed := s.pushed.drop name }
    | _, _ => none
  | .receive name msg =>
    match s.pushed.get? name, s.handing.get? name with
    | some pushed, none => some (s.receive cfg name pushed msg)
    | _, _ => none
  | .hand name =>
    match s.handing.get? name with
    | some content => some { s with
        hub := s.hub.sendClipboard name content
        handing := s.handing.drop name }
    | none => none
  | .request tx args => some (s.route (.toLocal tx) args)
  | .enter task =>
    match s.tasks.get? task with
    | some (.enter owner waiting args) =>
      let (router, req) := s.router.insert owner waiting
      some { s with router := router, tasks := s.tasks.put task (.send owner req args) }
    | _ => none
  | .send task =>
    match s.tasks.get? task with
    | some (.send owner req a) =>
      let (hub, sent) := s.hub.send owner (.fileRead a.seq req a.index a.offset a.len)
      if sent then some { s with hub := hub, tasks := s.tasks.drop task }
      else some { s with tasks := s.tasks.put task (.retract req) }
    | _ => none
  | .retract task =>
    match s.tasks.get? task with
    | some (.retract req) => some { s.refuse req with tasks := s.tasks.drop task }
    | _ => none
  | .read task disk =>
    match s.tasks.get? task with
    | some (.read waiting args) => some { s with
        tasks := s.tasks.put task (.answer waiting (s.router.localOwner.read disk args)) }
    | _ => none
  | .answer task =>
    match s.tasks.get? task with
    | some (.answer waiting result) =>
      some { s.deliver waiting result with tasks := s.tasks.drop task }
    | _ => none
  | .relay =>
    match s.relay, s.hub.clipboard with
    | .idle, ⟨from_, content⟩ :: rest =>
      let s := { s with hub := { s.hub with clipboard := rest } }
      match cfg.relay content with
      | .dropped => some s
      | .announced manifest => some { s with
          seq := s.seq + 1
          router := s.router.announce (.client from_) (s.seq + 1) manifest
          relay := .toRead none (cfg.messages (s.seq + 1) content) }
      | .applied => some { s with
          desk := s.desk ++ [content]
          seq := s.seq + 1
          relay := .toRead (some from_) (cfg.messages (s.seq + 1) content) }
    | _, _ => none
  | .copyData content =>
    if s.relay = .idle ∧ cfg.reassembles = true then
      some { s with seq := s.seq + 1, relay := .toRead none (cfg.messages (s.seq + 1) content) }
    else none
  | .copyFiles manifest abs =>
    if s.relay = .idle ∧ cfg.options.clipboardFiles = true then
      let router := { s.router with
        localOwner := s.router.localOwner.set (s.seq + 1) manifest abs }
      some { s with
        seq := s.seq + 1
        router := router.announce .server (s.seq + 1) manifest
        relay := .toRead none (cfg.messages (s.seq + 1) (.withFiles cfg.codec manifest)) }
    else none
  | .readOff =>
    match s.relay with
    | .toRead except_ msgs => some { s with relay := .toQueue except_ s.hub.disabled msgs }
    | _ => none
  | .queue =>
    match s.relay with
    | .toQueue except_ off msgs =>
      some { s with hub := s.hub.queueAll except_ off msgs, relay := .idle }
    | _ => none
  | .setDisabled name disabled => some { s with hub := s.hub.setDisabled name disabled }

end SharingRun

/-- The server's sharing, as a transition system: any screens may be turned off at the start. -/
def sharingRuns (cfg : SharingConfig) : Lts SharingRun SharingLabel where
  init s := ∃ disabled, s = { hub := { disabled := disabled } }
  step := SharingRun.step cfg

/-! ## The methods the sections are of

With nothing in between, the sections of a run come to the hub's whole methods. -/

section Methods

variable {cfg : SharingConfig} {s : SharingRun}

/-- The relay's look at the screens turned off and its sends are `broadcast_except`. -/
theorem run_readOff_queue {except_ : Option String} {msgs : List ServerMsg}
    (hrelay : s.relay = .toRead except_ msgs) :
    (sharingRuns cfg).run s [.readOff, .queue] =
      some { s with hub := s.hub.broadcastExcept except_ msgs, relay := .idle } := by
  have hread : (sharingRuns cfg).step s .readOff =
      some { s with relay := .toQueue except_ s.hub.disabled msgs } := by
    simp only [sharingRuns, SharingRun.step, hrelay]
  rw [Lts.run_cons hread]
  rfl

/-- The end of a push and its hand-over are `clipboard_in`; of a screen that is turned off there
is nothing to hand over. -/
theorem run_receive_hand {name : String} {id : ClipboardId} {seq : Nat} {chunk : Chunk}
    {pushed pushed' : Inbound} {content : ClipboardContent}
    (hshares : cfg.reassembles = true) (hallows : cfg.allows content = true)
    (hpushed : s.pushed.get? name = some pushed) (hfree : s.handing.get? name = none)
    (hdata : pushed.data cfg.codec id seq chunk = (pushed', .ok (some content))) :
    (sharingRuns cfg).run s (.receive name (.clipboardData id seq chunk) ::
        if s.hub.isDisabled name then [] else [.hand name]) =
      some { s with
        pushed := s.pushed.put name pushed'
        hub := s.hub.clipboardIn name content } := by
  unfold Hub.clipboardIn
  cases hoff : s.hub.isDisabled name with
  | true =>
    have hreceive : (sharingRuns cfg).step s (.receive name (.clipboardData id seq chunk)) =
        some { s with pushed := s.pushed.put name pushed' } := by
      simp [sharingRuns, SharingRun.step, SharingRun.receive, hpushed, hfree, hshares, hdata, hoff]
    rw [Lts.run_cons hreceive]
    rfl
  | false =>
    have hreceive : (sharingRuns cfg).step s (.receive name (.clipboardData id seq chunk)) =
        some { s with
          pushed := s.pushed.put name pushed'
          handing := s.handing.put name content } := by
      simp [sharingRuns, SharingRun.step, SharingRun.receive, hpushed, hfree, hshares, hallows,
        hdata, hoff]
    rw [Lts.run_cons hreceive]
    simp [Lts.run, sharingRuns, SharingRun.step, Dict.drop_put, Dict.drop_of_none hfree]

end Methods

end GeserDesk
