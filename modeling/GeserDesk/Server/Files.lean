import GeserDesk.Clipboard.FileOwner
import GeserDesk.Server.Hub

/-!
# Routing file reads

`FileRouter` of `geserdesk-server/src/files.rs`: reads go from whoever pulls files to whoever
owns them, under request numbers of the router's own.

Its methods take several locks in turn. They are given here as their lock sections, which a
system puts in order (`FileRuns`): `route` reads the owner (`currentOwner`), numbers and enters
the request (`insert`), sends it with `Hub.send`, and takes it back (`take`) if that failed;
`reply_from_client` is a `take` and what `reply` makes of it; `on_disconnected` is `dropOwner`,
`stale`, then a `take` for each request found. The type `W` of what waits for an answer is a
parameter.
-/

namespace GeserDesk

/-- Who most recently announced the files now on the clipboard. -/
inductive Owner where
  /-- This server's own desktop clipboard. -/
  | server
  | client (name : String)
deriving DecidableEq, Repr

/-- Where the answer to one routed request must end up. -/
inductive Waiting where
  /-- Back over the network, to a client, under its own `req`. -/
  | toClient (name : String) (req : Nat)
  /-- Into the pull inside this process that holds the other end of `tx`. -/
  | toLocal (tx : Nat)
deriving DecidableEq, Repr

structure Pending (W : Type) where
  /-- Who the request was sent to, so an answer from anyone else is dropped. -/
  sentTo : String
  waiting : W

structure FileRouter (W : Type) where
  /-- This server's own files, when it is the owner. -/
  localOwner : FileOwner := {}
  current : Option (Owner × Nat × FileManifest) := none
  pending : Dict Nat (Pending W) := ∅
  /-- A `u64` in the source, which no run exhausts. -/
  nextReq : Nat := 1

namespace FileRouter

variable {W : Type}

/-- `owner` just announced `manifest` as transfer `seq`; whoever owned files before does not
any more. -/
def announce (r : FileRouter W) (owner : Owner) (seq : Nat) (manifest : FileManifest) :
    FileRouter W :=
  { r with current := some (owner, seq, manifest) }

def currentOwner (r : FileRouter W) : Option Owner := r.current.map (·.1)

/-- `on_disconnected`, first section: if `name` was the owner, nobody is now. -/
def dropOwner (r : FileRouter W) (name : String) : FileRouter W :=
  match r.current with
  | some (.client n, _, _) => if n = name then { r with current := none } else r
  | _ => r

/-- `on_disconnected`, second section: the requests already sent to `name`. -/
def stale (r : FileRouter W) (name : String) : List Nat :=
  (r.pending.entries.filter fun e => decide (e.2.sentTo = name)).map (·.1)

/-- Take a request out of the table. -/
def take (r : FileRouter W) (req : Nat) : FileRouter W × Option (Pending W) :=
  ({ r with pending := r.pending.drop req }, r.pending.get? req)

/-- `route`, second section: number a request for `name` and enter it. The number is taken
before the table is locked; it is nobody else's. -/
def insert (r : FileRouter W) (name : String) (waiting : W) : FileRouter W × Nat :=
  ({ r with nextReq := r.nextReq + 1, pending := r.pending.put r.nextReq ⟨name, waiting⟩ },
    r.nextReq)

/-- What the answer `from_` gave means for the request it names: an answer from anyone but
who was asked is refused. -/
def reply (sentTo from_ : String) (result : FileReadResult) : FileReadResult :=
  if sentTo = from_ then result else .err .notFound

/-- Queue an answer for the client that waits for it, as the message `reply` makes of it. A pull
of this process is woken instead, which queues nothing. -/
def deliver {M : Type} (message : Nat → FileReadResult → M) (hub : Hub M) (waiting : Waiting)
    (result : FileReadResult) : Hub M :=
  match waiting with
  | .toClient name req => (hub.send name (message req result)).1
  | .toLocal _ => hub

/-- Losing an owner takes no request back. -/
theorem dropOwner_keeps (r : FileRouter W) (name : String) :
    (r.dropOwner name).pending = r.pending ∧ (r.dropOwner name).nextReq = r.nextReq := by
  unfold dropOwner
  split
  · split <;> exact ⟨rfl, rfl⟩
  · exact ⟨rfl, rfl⟩

/-- Every request found stale was sent to the client that left. -/
theorem mem_stale {r : FileRouter W} {name : String} {req : Nat} :
    req ∈ r.stale name ↔ ∃ p, r.pending.get? req = some p ∧ p.sentTo = name := by
  unfold stale
  rw [List.mem_map]
  constructor
  · rintro ⟨⟨k, p⟩, he, rfl⟩
    obtain ⟨hmem, hsent⟩ := List.mem_filter.mp he
    exact ⟨p, (Dict.mem_entries_iff _ _ _).mp hmem, of_decide_eq_true hsent⟩
  · rintro ⟨p, hp, hsent⟩
    exact ⟨⟨req, p⟩, List.mem_filter.mpr ⟨(Dict.mem_entries_iff _ _ _).mpr hp,
      decide_eq_true hsent⟩, rfl⟩

/-- What comes through is from who was asked, or is a refusal. -/
theorem reply_cases (sentTo from_ : String) (result : FileReadResult) :
    reply sentTo from_ result = .err .notFound ∨ (sentTo = from_ ∧ reply sentTo from_ result = result) := by
  unfold reply
  split
  · next heq => exact .inr ⟨heq, rfl⟩
  · exact .inl rfl

end FileRouter

end GeserDesk
