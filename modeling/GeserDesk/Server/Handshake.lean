import GeserDesk.Server.Hub
import GeserDesk.Server.Layout
import GeserDesk.Server.Trust

/-!
# From a connection to a registered screen

`handshake` and `handle_client` of `geserdesk-server/src/net.rs`, for a server with TLS: `Hello`,
the checks of version, name and certificate, `Welcome`, `SetOptions`, the claim of the name, the
session and its end. Between two of these the connection waits for its socket or for a lock, so
each is a section of its own, and `Stage`s are what lies between.
-/

namespace GeserDesk

/-- `HandshakeOutcome` and `HandshakeError`, without the accepted one: why a connection was
turned away. -/
inductive Refusal where
  | expectedHello
  | incompatible (remote : Version)
  | unknownScreen (name : String)
  /-- The client's certificate is not (yet) trusted for that screen name. -/
  | untrusted (name : String)
  | nameTaken (name : String)
deriving DecidableEq, Repr

/-- The most monitors one machine may report. -/
def maxMonitors : Nat := 32

/-- `i32::abs`, which has no answer for the smallest value and gives it back. -/
def absI32 (x : Int) : Int := if x = -2147483648 then x else x.natAbs

def saneMonitor (r : Rect) : Bool :=
  let limit : Int := 1000000
  decide (0 < r.w ∧ 0 < r.h ∧ r.w ≤ limit ∧ r.h ≤ limit
    ∧ absI32 r.x ≤ limit ∧ absI32 r.y ≤ limit)

/-- The monitors a client reported, made safe to use. -/
def sanitizeMonitors (screen : ScreenInfo) : List Rect :=
  match (screen.monitors.filter saneMonitor).take maxMonitors with
  | [] => [if saneMonitor screen.bounds then screen.bounds else ⟨0, 0, 1920, 1080⟩]
  | list => list

/-- Where `handle_client` stands. -/
inductive HandshakeStage where
  /-- Waits for `Hello`. -/
  | hello
  /-- The version is agreed on and the name is admissible; the certificate is to be checked. -/
  | authorize (screen : ScreenInfo) (version : Version) (listed : Bool)
  /-- The certificate is not the trusted one; the request is to be put on the pending list. -/
  | note (name : String)
  /-- Authorized; the name is to be looked up among those connected. -/
  | authorized (screen : ScreenInfo) (version : Version)
  /-- `Welcome` is to be sent, -/
  | welcome (screen : ScreenInfo) (version : Version)
  /-- then `SetOptions`. -/
  | options (screen : ScreenInfo) (version : Version)
  /-- The handshake succeeded; the name is to be claimed. -/
  | accepted (screen : ScreenInfo) (version : Version)
  /-- Turned away. -/
  | refused (why : Refusal)
  /-- In its session loop, registered under `name`. -/
  | session (name : String)
  /-- The loop has ended; the registration is to be dropped. -/
  | closing (name : String)
  | done
deriving DecidableEq, Repr

namespace HandshakeStage

/-- The first message arrives. With TLS a name the layout does not list gets as far as the
certificate check, if it is plain text. -/
def onHello (layout : Layout) : ClientMsg → HandshakeStage
  | .hello version screen =>
    match protocolVersion.negotiate version with
    | none => .refused (.incompatible version)
    | some negotiated =>
      let listed := layout.hasScreen screen.name
      if !listed && !validScreenName screen.name then .refused (.unknownScreen screen.name)
      else .authorize screen negotiated listed
  | _ => .refused .expectedHello

/-- `authorize`: the certificate must be the one approved for the name. A trusted name that is
not on the desk is refused all the same. -/
def onAuthorize (trust : Trust) (cert : Option Fingerprint) (screen : ScreenInfo)
    (version : Version) (listed : Bool) : HandshakeStage :=
  match cert with
  | none => .refused (.untrusted screen.name)
  | some fp =>
    if trust.check screen.name fp = .trusted then
      if listed then .authorized screen version else .refused (.unknownScreen screen.name)
    else .note screen.name

/-- The name under which the certificate passed its check, until it is claimed. -/
def passed? : HandshakeStage → Option String
  | authorized screen _ | welcome screen _ | options screen _ | accepted screen _ =>
    some screen.name
  | _ => none

/-- The name the connection holds. -/
def holds? : HandshakeStage → Option String
  | session name | closing name => some name
  | _ => none

/-- The handshake is over, or the session that came of it has ended. -/
def Settled : HandshakeStage → Prop
  | session _ | refused _ | done => True
  | _ => False

instance : DecidablePred Settled := fun stage => by
  unfold Settled
  split <;> infer_instance

/-- Nobody has passed by a Hello. -/
theorem passed_onHello (layout : Layout) (msg : ClientMsg) :
    (onHello layout msg).passed? = none ∧ (onHello layout msg).holds? = none := by
  unfold onHello
  cases msg with
  | hello version screen =>
    dsimp only
    split
    · exact ⟨rfl, rfl⟩
    · split <;> exact ⟨rfl, rfl⟩
  | _ => exact ⟨rfl, rfl⟩

/-- Only the trusted certificate passes. -/
theorem passed_onAuthorize {trust : Trust} {cert : Option Fingerprint} {screen : ScreenInfo}
    {version : Version} {listed : Bool} {name : String}
    (h : (onAuthorize trust cert screen version listed).passed? = some name) :
    ∃ fp, cert = some fp ∧ trust.trusted.get? name = some fp := by
  unfold onAuthorize at h
  split at h
  · cases h
  · next fp =>
    split at h
    · next htrusted =>
      split at h
      · obtain rfl := Option.some.inj h
        exact ⟨fp, rfl, Trust.check_trusted_iff.mp htrusted⟩
      · cases h
    · cases h

/-- Nobody holds a name by being authorized. -/
theorem holds_onAuthorize (trust : Trust) (cert : Option Fingerprint) (screen : ScreenInfo)
    (version : Version) (listed : Bool) :
    (onAuthorize trust cert screen version listed).holds? = none := by
  unfold onAuthorize
  split
  · rfl
  · split
    · split <;> rfl
    · rfl

end HandshakeStage

end GeserDesk
