import GeserDesk.Lib.Dict

/-!
# Which certificates the server trusts

`geserdesk-server/src/trust.rs`: trust is recorded as screen name to certificate fingerprint. A
client with another certificate is listed as pending until a person approves it.
-/

namespace GeserDesk

/-- The SHA-256 fingerprint of a certificate. -/
structure Fingerprint where
  digest : BitVec 256
deriving DecidableEq, Repr

/-- How the server rates a presented certificate for a screen name. -/
inductive Verdict where
  /-- Approved for this name. -/
  | trusted
  /-- The name has an approved certificate, and this is a different one. -/
  | mismatch (expected : Fingerprint)
  /-- Nothing is approved for this name yet. -/
  | unknown
deriving DecidableEq, Repr

/-- A client asking to be trusted. When it was last seen is left to the clock. -/
structure Trust.Pending where
  name : String
  fingerprint : Fingerprint
  /-- Where it connected from. -/
  addr : String
  /-- The certificate this one would replace, if the name is already trusted. -/
  replaces : Option Fingerprint
deriving DecidableEq, Repr

/-- `Inner` of the source, whose every method is one lock section. -/
structure Trust where
  trusted : Dict String Fingerprint := ∅
  pending : List Trust.Pending := []

namespace Trust

/-- The most pending requests kept. -/
def maxPending : Nat := 16

def check (t : Trust) (name : String) (fp : Fingerprint) : Verdict :=
  match t.trusted.get? name with
  | some expected => if expected = fp then .trusted else .mismatch expected
  | none => .unknown

def Pending.is (name : String) (fp : Fingerprint) (p : Pending) : Bool :=
  p.name == name && p.fingerprint == fp

/-- Record (or refresh) a request to be trusted. `expired` is what the clock says of each. -/
def notePending (t : Trust) (expired : Pending → Bool) (name : String) (fp : Fingerprint)
    (addr : String) : Trust :=
  let pending := t.pending.filter (!expired ·)
  let replaces := t.trusted.get? name
  if pending.any (Pending.is name fp) then
    { t with pending := pending.modify (pending.findIdx (Pending.is name fp)) fun p =>
        { p with addr := addr, replaces := replaces } }
  else
    let pending := if maxPending ≤ pending.length then pending.tail else pending
    { t with pending := pending ++ [⟨name, fp, addr, replaces⟩] }

/-- Trust a pending request; `false` if there is none of that name and certificate. -/
def approve (t : Trust) (name : String) (fp : Fingerprint) : Trust × Bool :=
  if t.pending.any (Pending.is name fp) then
    ({ trusted := t.trusted.put name fp, pending := t.pending.filter (·.name != name) }, true)
  else (t, false)

/-- Forget a pending request without trusting it; `false` if there was none. -/
def dismiss (t : Trust) (name : String) (fp : Fingerprint) : Trust × Bool :=
  let pending := t.pending.filter fun p => !p.is name fp
  ({ t with pending := pending }, pending.length != t.pending.length)

/-- Stop trusting `name`; the certificate that was trusted. -/
def revoke (t : Trust) (name : String) : Trust × Option Fingerprint :=
  ({ t with trusted := t.trusted.drop name }, t.trusted.get? name)

/-- Put a trusted entry back, or none. -/
def restore (t : Trust) (name : String) (fp : Option Fingerprint) : Trust :=
  match fp with
  | some fp => { t with trusted := t.trusted.put name fp }
  | none => { t with trusted := t.trusted.drop name }

/-! ## What is trusted after each -/

/-- A certificate passes just if it is the one trusted under the name. -/
theorem check_trusted_iff {t : Trust} {name : String} {fp : Fingerprint} :
    t.check name fp = .trusted ↔ t.trusted.get? name = some fp := by
  unfold check
  cases t.trusted.get? name with
  | none => exact ⟨nofun, nofun⟩
  | some expected =>
    dsimp only
    split
    · next heq => exact ⟨fun _ => congrArg some heq, fun _ => rfl⟩
    · next hne => exact ⟨nofun, fun h => absurd (Option.some.inj h) hne⟩

/-- A note changes nothing that is trusted. -/
@[simp] theorem notePending_trusted (t : Trust) (expired : Pending → Bool) (name : String)
    (fp : Fingerprint) (addr : String) :
    (t.notePending expired name fp addr).trusted = t.trusted := by
  unfold notePending
  dsimp only
  split <;> rfl

/-- A dismissal changes nothing that is trusted. -/
@[simp] theorem dismiss_trusted (t : Trust) (name : String) (fp : Fingerprint) :
    (t.dismiss name fp).1.trusted = t.trusted := rfl

/-- A restore puts back what was trusted under the name, and touches no other. -/
theorem restore_get? (t : Trust) (name other : String) (fp : Option Fingerprint) :
    (t.restore name fp).trusted.get? other = if other = name then fp else t.trusted.get? other := by
  cases fp with
  | none => exact Dict.get?_drop _ _ _
  | some fp => exact Dict.get?_put _ _ _ _

end Trust

end GeserDesk
