import GeserDesk.Client.Clipboard
import GeserDesk.System.RelayRuns

/-!
# Clients that copy files

The server's sharing as `SharingRuns` has it, with an honest `ClientClipboard` at the other end of
every session: any number of connected clients look at their clipboards, push what they find, and
handle what is queued for them, one message at a time. Sessions, relay and clients are interleaved
in any order.

The record of who pushed the files of each transfer is bookkeeping only.
-/

namespace GeserDesk

/-- A client's machine: its side of clipboard sharing, and what is on the way. -/
structure Machine where
  clip : ClientClipboard := {}
  /-- What it sent and its session has not handled yet. -/
  up : List Push := []
  /-- How many of the clipboard messages queued for it it has handled. -/
  taken : Nat := 0
  /-- Every copy of files it has pushed, as it was collected. -/
  copied : List (FileManifest × List String) := []

structure AnnounceRun where
  server : SharingRun := {}
  machines : Dict String Machine := ∅
  /-- Which client pushed the files announced as a transfer. -/
  pushers : Dict Nat String := ∅

inductive AnnounceLabel where
  /-- A client looks at its clipboard; `files` and `data` are what is new there. -/
  | look (name : String) (files : Option (FileManifest × List String))
      (data : Option ClipboardContent)
  /-- A session handles the next message of its client. -/
  | session (name : String)
  | hand (name : String)
  | relay
  | copyData (content : ClipboardContent)
  | copyFiles (manifest : FileManifest) (abs : List String)
  | readOff
  | queue
  | setDisabled (name : String) (disabled : Bool)
  /-- A client handles the next message queued for it. -/
  | hear (name : String)

namespace AnnounceRun

/-- The clipboard messages queued for `name`. -/
def clips (s : AnnounceRun) (name : String) : List Push := (s.server.hub.clips name).getD []

/-- What the relay takes next is files it will announce: who pushed them is recorded. -/
def noted (cfg : SharingConfig) (s : AnnounceRun) : Dict Nat String :=
  match s.server.hub.clipboard with
  | ⟨from_, content⟩ :: _ =>
    match cfg.relay content with
    | .announced _ => s.pushers.put (s.server.seq + 1) from_
    | _ => s.pushers
  | [] => s.pushers

/-- What there is besides files has no files among its formats. -/
def step (cfg : SharingConfig) (s : AnnounceRun) : AnnounceLabel → Option AnnounceRun
  | .look name files data =>
    match s.machines.get? name with
    | none => none
    | some mc =>
      if data.all fun c => (c.files cfg.codec).isNone then
        let (clip, msgs) := mc.clip.changed cfg files data
        let copied := if mc.clip.looksForFiles cfg then mc.copied ++ files.toList else mc.copied
        let mc := { mc with clip := clip, up := mc.up ++ msgs, copied := copied }
        some { s with machines := s.machines.put name mc }
      else none
  | .session name =>
    match s.machines.get? name with
    | none => none
    | some mc =>
      match mc.up with
      | [] => none
      | p :: rest => (s.server.step cfg (.receive name p.client)).map fun server => { s with
          server := server, machines := s.machines.put name { mc with up := rest } }
  | .hand name => (s.server.step cfg (.hand name)).map fun server => { s with server := server }
  | .relay => (s.server.step cfg .relay).map fun server => { s with
      server := server, pushers := s.noted cfg }
  | .copyData content =>
    if (content.files cfg.codec).isNone then
      (s.server.step cfg (.copyData content)).map fun server => { s with server := server }
    else none
  | .copyFiles manifest abs =>
    (s.server.step cfg (.copyFiles manifest abs)).map fun server => { s with server := server }
  | .readOff => (s.server.step cfg .readOff).map fun server => { s with server := server }
  | .queue => (s.server.step cfg .queue).map fun server => { s with server := server }
  | .setDisabled name disabled =>
    (s.server.step cfg (.setDisabled name disabled)).map fun server => { s with server := server }
  | .hear name =>
    match s.machines.get? name with
    | none => none
    | some mc =>
      match (s.clips name).drop mc.taken with
      | [] => none
      | p :: _ =>
        let mc := { mc with clip := mc.clip.hear cfg p, taken := mc.taken + 1 }
        some { s with machines := s.machines.put name mc }

/-- Every message is delivered: nothing is on the way to the relay, in it, or queued. -/
def Settled (s : AnnounceRun) : Prop :=
  s.server.relay = .idle ∧ s.server.hub.clipboard = []
    ∧ ∀ name mc, s.machines.get? name = some mc →
      mc.up = [] ∧ s.server.handing.get? name = none ∧ (s.clips name).drop mc.taken = []

/-- Settled: the relay is idle, and nothing is on its way in either direction. -/
theorem settled_iff (s : AnnounceRun) : s.Settled ↔ s.server.relay = .idle
    ∧ s.server.hub.clipboard = [] ∧ ∀ name ∈ s.machines.keys, ∀ mc ∈ s.machines.get? name,
      mc.up = [] ∧ s.server.handing.get? name = none ∧ (s.clips name).drop mc.taken = [] := by
  constructor
  · rintro ⟨hidle, hqueue, hall⟩
    exact ⟨hidle, hqueue, fun name _ mc hmc => hall name mc hmc⟩
  · rintro ⟨hidle, hqueue, hall⟩
    refine ⟨hidle, hqueue, fun name mc hmc => hall name ?_ mc hmc⟩
    rw [Dict.mem_keys_iff, hmc]
    rfl

instance (s : AnnounceRun) : Decidable s.Settled := decidable_of_iff' _ s.settled_iff

/-! ## What a step completes

Which announcements a step begins or ends. -/

/-- The contents the next message of `name`'s completes at its session. -/
def arriving (cfg : SharingConfig) (s : AnnounceRun) (name : String) : Option ClipboardContent :=
  match s.machines.get? name, s.server.pushed.get? name with
  | some mc, some pushed => mc.up.head?.bind fun p => (cfg.take pushed p).2.map Prod.snd
  | _, _ => none

/-- The transfer the next message queued for `name` completes there. -/
def completing (cfg : SharingConfig) (s : AnnounceRun) (name : String) :
    Option (Nat × ClipboardContent) :=
  (s.machines.get? name).bind fun mc =>
    ((s.clips name).drop mc.taken).head?.bind fun p => (cfg.take mc.clip.inbound p).2

/-- A push of files is not empty and within the limit for data, and reaches the relay; none is
broadcast while a client is turned off; and no announcement of other files reaches a client that
waits for the echo of its own. -/
def Orderly (cfg : SharingConfig) (s : AnnounceRun) : AnnounceLabel → Prop
  | .look name (some (manifest, _)) _ =>
    ∀ mc ∈ s.machines.get? name, mc.clip.looksForFiles cfg = true →
      manifest.entries ≠ [] ∧ cfg.Carries (.withFiles cfg.codec manifest)
  | .session name =>
    ∀ content ∈ s.arriving cfg name, (content.files cfg.codec).isSome →
      name ∉ s.server.hub.disabled
  | .readOff => (s.pushers.get? s.server.seq).isSome →
      ∀ name ∈ s.machines.keys, name ∉ s.server.hub.disabled
  | .hear name =>
    ∀ mc ∈ s.machines.get? name, ∀ c ∈ s.completing cfg name, (c.2.files cfg.codec).isSome →
      mc.clip.pendingOwnFiles.isSome → s.pushers.get? c.1 = some name
  | _ => True

instance (cfg : SharingConfig) (s : AnnounceRun) (l : AnnounceLabel) :
    Decidable (s.Orderly cfg l) := by
  unfold Orderly
  split <;> infer_instance

end AnnounceRun

/-- Clients and server, as a transition system: any clients are connected, any screens turned off,
and nothing has been copied yet. -/
def announceRuns (cfg : SharingConfig) : Lts AnnounceRun AnnounceLabel where
  init s := s.server.relay = .idle ∧ s.server.hub.clipboard = [] ∧ s.server.handing = ∅
    ∧ s.server.router.current = none ∧ s.server.seq = 0 ∧ s.pushers = ∅
    ∧ ∀ name, (s.machines.get? name = none ∨ s.machines.get? name = some {})
      ∧ s.server.hub.clips name = (s.machines.get? name).map (fun _ => [])
      ∧ s.server.pushed.get? name = (s.machines.get? name).map (fun _ => {})
  step := AnnounceRun.step cfg

end GeserDesk
