import GeserDesk.Client.Clipboard
import GeserDesk.Lib.Transition
import GeserDesk.Server.Relay

/-!
# Copies and the cursor

What is on the clipboards of a desk, and which files are pulled where the cursor arrives: the relay
`clipboard::run` of the server, the pull of `run_shared` when the cursor comes back, and a
`ClientClipboard` at every client. A copy is made, pushed and relayed in one step, so the relay is
done with it before the next. What the relay queues for a client, and the `Enter` behind it, the
client handles when it gets to it; a pull takes its time, and puts its files on the clipboard or
fails.

The last copy, and what it was when a pull was started or put on a clipboard, is bookkeeping only.
-/

namespace GeserDesk

/-- The copy that was made last. -/
inductive LatestCopy where
  | nothing
  /-- Text, HTML or a picture. -/
  | data
  | files (seq : Nat) (manifest : FileManifest)
deriving DecidableEq, Repr

/-- A pull for a client's clipboard, or the server's own. -/
structure ArrivalPull where
  screen : Option String
  seq : Nat
  manifest : FileManifest
deriving DecidableEq, Repr

/-- What is queued for a client: a transfer, whole, or the arrival of the cursor. -/
inductive Queued where
  | copy (seq : Nat) (content : ClipboardContent)
  | enter
deriving DecidableEq, Repr

structure CopyClient where
  clip : ClientClipboard := {}
  /-- What its session has of a push. -/
  pushed : Inbound := {}
  inbox : List Queued := []
deriving DecidableEq, Repr

structure CopyRun where
  router : FileRouter Waiting := {}
  /-- The number of the relay's last transfer. -/
  seq : Nat := 0
  clients : Dict String CopyClient := ∅
  /-- Where the cursor is: on a client's screen, or the server's own. -/
  active : Option String := none
  /-- `last_pulled_seq` of `run_shared`. -/
  lastPulledSeq : Option Nat := none
  latest : LatestCopy := .nothing
  /-- The pulls under way. -/
  pulling : List ArrivalPull := []
  /-- The pulls that were started, and those put on a clipboard. -/
  started : List (ArrivalPull × LatestCopy) := []
  pasted : List (ArrivalPull × LatestCopy) := []

inductive CopyLabel where
  /-- A client looks at its clipboard and pushes what it finds new there. -/
  | copyOn (name : String) (files : Option (FileManifest × List String))
      (data : Option ClipboardContent)
  /-- The server's own desktop copied data, -/
  | copyData (content : ClipboardContent)
  /-- or files. -/
  | copyFiles (manifest : FileManifest) (abs : List String)
  | move (screen : Option String)
  /-- A client handles what is queued for it next. -/
  | hear (name : String)
  | finish (k : Nat)
  | fail (k : Nat)

namespace CopyRun

/-- Transfer `seq` is queued for every client but `except_`. -/
def broadcast (s : CopyRun) (except_ : Option String) (content : ClipboardContent) : CopyRun :=
  { s with
    seq := s.seq + 1
    clients := s.clients.mapVals fun name m =>
      if some name = except_ then m else { m with inbox := m.inbox ++ [.copy (s.seq + 1) content] } }

/-- The relay takes what `from_` pushed. -/
def relayed (cfg : SharingConfig) (s : CopyRun) (from_ : String) (content : ClipboardContent) :
    Option CopyRun :=
  match cfg.relay content with
  | .dropped => none
  -- files are announced to every client, the one that pushed them too
  | .announced manifest =>
    let s := { s with
      router := s.router.announce (.client from_) (s.seq + 1) manifest
      latest := .files (s.seq + 1) manifest }
    some (s.broadcast none content)
  | .applied => some ({ s with latest := .data }.broadcast (some from_) content)

/-- Start a pull, if there is something to pull. -/
def start (s : CopyRun) (screen : Option String) : Option (Nat × FileManifest) → CopyRun
  | none => s
  | some (seq, manifest) => { s with
      pulling := s.pulling ++ [⟨screen, seq, manifest⟩]
      started := s.started ++ [(⟨screen, seq, manifest⟩, s.latest)] }

/-- The end of a turn of `run_shared` in which the cursor came back. -/
def pullOnReturn (cfg : SharingConfig) (s : CopyRun) : CopyRun :=
  if !cfg.options.clipboardFiles then s
  else match s.router.current with
    | some (.client _, seq, manifest) =>
      -- the cursor may come back many times, the files are pulled once
      if s.lastPulledSeq = some seq then s
      else { s with lastPulledSeq := some seq }.start none (some (seq, manifest))
    | _ => s

/-- A copy the relay does not get to see is none. -/
def step (cfg : SharingConfig) (s : CopyRun) : CopyLabel → Option CopyRun
  | .copyOn name files data =>
    match s.clients.get? name with
    | none => none
    | some m =>
      if data.all fun c => (c.files cfg.codec).isNone then
        let (clip, msgs) := m.clip.changed cfg files data
        match feed cfg.take m.pushed msgs with
        | (pushed, [(_, content)]) =>
          if cfg.allows content then
            { s with clients := s.clients.put name { m with clip := clip, pushed := pushed } }.relayed
              cfg name content
          else none
        | _ => none
      else none
  | .copyData content =>
    if cfg.reassembles = true ∧ (content.files cfg.codec).isNone then
      some ({ s with latest := .data }.broadcast none content)
    else none
  | .copyFiles manifest abs =>
    if cfg.options.clipboardFiles = true then
      let router := { s.router with
        localOwner := s.router.localOwner.set (s.seq + 1) manifest abs }
      let s := { s with
        router := router.announce .server (s.seq + 1) manifest
        latest := .files (s.seq + 1) manifest }
      some (s.broadcast none (.withFiles cfg.codec manifest))
    else none
  | .move screen =>
    if s.active = screen then none
    else match screen with
      | none => some ({ s with active := none }.pullOnReturn cfg)
      | some name =>
        match s.clients.get? name with
        | none => none
        | some m => some { s with
            active := some name
            clients := s.clients.put name { m with inbox := m.inbox ++ [.enter] } }
  | .hear name =>
    match s.clients.get? name with
    | none => none
    | some m =>
      match m.inbox with
      | [] => none
      | .copy seq content :: rest =>
        let clip := (pushes cfg.codec seq content).foldl (fun c p => c.hear cfg p) m.clip
        some { s with clients := s.clients.put name { m with clip := clip, inbox := rest } }
      | .enter :: rest =>
        let (clip, pull) := m.clip.pullOnEnter cfg
        let s := { s with clients := s.clients.put name { m with clip := clip, inbox := rest } }
        some (s.start (some name) pull)
  | .finish k =>
    match s.pulling[k]? with
    | none => none
    -- it is put on the clipboard whatever the last copy is by then
    | some p => some { s with
        pulling := s.pulling.eraseIdx k, pasted := s.pasted ++ [(p, s.latest)] }
  | .fail k => if k < s.pulling.length then some { s with pulling := s.pulling.eraseIdx k } else none

/-- Files are pulled where the cursor arrives, and put on the clipboard there, only while they are
the last copy; and after a copy of anything else nobody serves any. -/
structure LastCopyWins (s : CopyRun) : Prop where
  started : ∀ e ∈ s.started, e.2 = .files e.1.seq e.1.manifest
  pasted : ∀ e ∈ s.pasted, e.2 = .files e.1.seq e.1.manifest
  served : s.latest = .data → s.router.localOwner.current = none
    ∧ ∀ name m, s.clients.get? name = some m → m.clip.filesOwner.current = none

end CopyRun

/-- A look that finds these files new pushes files. -/
def ClientClipboard.pushesFiles (cfg : SharingConfig) (c : ClientClipboard) :
    Option (FileManifest × List String) → Bool
  | some (manifest, _) => c.looksForFiles cfg && !manifest.entries.isEmpty
  | none => false

namespace CopyRun

/-- Nobody pulls, and nobody has yet to handle an arrival. -/
def Still (s : CopyRun) : Prop :=
  s.pulling = [] ∧ ∀ name ∈ s.clients.keys, ∀ m ∈ s.clients.get? name, .enter ∉ m.inbox

/-- Data is copied before any files are; and files while nobody pulls, nor is about to, the
server's own such that clients take them in (or they are the first). -/
def Timely (cfg : SharingConfig) (s : CopyRun) : CopyLabel → Prop
  | .copyOn name files _ => ∀ m ∈ s.clients.get? name,
      if m.clip.pushesFiles cfg files then s.Still else s.router.current = none
  | .copyData _ => s.router.current = none
  | .copyFiles manifest _ => s.Still ∧ (s.router.current = none
      ∨ (manifest.entries ≠ [] ∧ cfg.Carries (.withFiles cfg.codec manifest)))
  | _ => True

instance (s : CopyRun) : Decidable s.Still := by
  unfold Still; infer_instance

instance (cfg : SharingConfig) (s : CopyRun) (l : CopyLabel) : Decidable (s.Timely cfg l) := by
  unfold Timely
  split <;> infer_instance

end CopyRun

/-- Any clients are connected, the cursor is on the server's own screen, and nothing has been
copied yet. -/
def copyRuns (cfg : SharingConfig) : Lts CopyRun CopyLabel where
  init s := s.router = {} ∧ s.latest = .nothing ∧ s.active = none ∧ s.pulling = []
    ∧ s.started = [] ∧ s.pasted = [] ∧ ∀ name, s.clients.get? name = none
      ∨ s.clients.get? name = some {}
  step := CopyRun.step cfg

end GeserDesk
