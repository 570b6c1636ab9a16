import GeserDesk.Lib.Transition
import GeserDesk.Server.Handshake

/-!
# Runs of handshakes and of the administration of trust

`DeskState::revoke`, `approve` and `dismiss` of `geserdesk-server/src/admin.rs` with any number of
connections, each cut into its sections and interleaved in any order.

* **`RevokeStep`**: everything a step can do to the trust, the revocations, the registrations and
  the sessions, from which the invariants are derived.
* **`holderWf_reach`**: a session holds its name, and nobody else does.

What becomes of the sessions of a revoked certificate is stated and proved in `Revocation`.
-/

namespace GeserDesk

structure TlsConnection where
  /-- The certificate the client presented, if any. -/
  cert : Option Fingerprint
  addr : String
  /-- The layout as it was when the connection was accepted. -/
  layout : Layout
  stage : HandshakeStage

/-- Where a call of `revoke` stands. -/
inductive RevokePc where
  /-- The trust is gone; the config file is to be written. -/
  | toSave
  /-- Saved; whoever is registered is to be closed. -/
  | toClose
  | returned (ok : Bool)
deriving DecidableEq

/-- A call of `revoke` that found a certificate to revoke. -/
structure Revocation where
  name : String
  old : Fingerprint
  pc : RevokePc
  /-- Whether a person approved the certificate again since (bookkeeping only). -/
  reapproved : Bool := false
deriving DecidableEq

/-- Where a call of `approve` stands. -/
inductive ApprovePc where
  /-- The trust as it was is read. -/
  | toApprove (previous : Option Fingerprint)
  | toSave (previous : Option Fingerprint)
  /-- A new machine joins the desk: its layout, then the hub's list. -/
  | toJoin
  | toAdd
  | returned (ok : Bool)
deriving DecidableEq

structure Approval where
  name : String
  fp : Fingerprint
  listed : Bool
  pc : ApprovePc
deriving DecidableEq

structure RevokeRun where
  /-- The config's layout. -/
  layout : Layout
  /-- The desk's: the config's screens and those approved since. -/
  desk : Layout
  trust : Trust := {}
  hub : Hub ServerMsg := {}
  conns : Dict Nat TlsConnection := ∅
  nextSid : Nat := 0
  revocations : Dict Nat Revocation := ∅
  nextRevocation : Nat := 0
  approvals : Dict Nat Approval := ∅
  nextApproval : Nat := 0

inductive RevokeLabel where
  | accept (cert : Option Fingerprint) (addr : String)
  /-- The first message of the client arrives. -/
  | hello (sid : Nat) (msg : ClientMsg)
  | authorize (sid : Nat)
  | note (sid : Nat) (expired : Trust.Pending → Bool)
  | nameTaken (sid : Nat)
  /-- `Welcome` or `SetOptions` is sent. -/
  | sent (sid : Nat)
  /-- The handshake times out, or the socket fails. -/
  | abort (sid : Nat)
  | register (sid : Nat)
  /-- The session sends the next message of its outbox. -/
  | push (sid : Nat)
  /-- The session ends for another reason: its client left, or was too quiet. -/
  | leave (sid : Nat)
  | unregister (sid : Nat)
  | revoke (name : String)
  | saveRevoked (rid : Nat) (saved : Bool)
  | close (rid : Nat)
  | approve (name : String) (fp : Fingerprint)
  | trust (aid : Nat)
  | saveApproved (aid : Nat) (saved : Bool)
  | join (aid : Nat)
  | add (aid : Nat)
  | dismiss (name : String) (fp : Fingerprint)
  /-- Anyone else queues a message. -/
  | traffic (name : String) (msg : ServerMsg)

namespace RevokeRun

/-- The connection moves on to `stage`. -/
def setStage (s : RevokeRun) (sid : Nat) (c : TlsConnection) (stage : HandshakeStage) :
    RevokeRun :=
  { s with conns := s.conns.put sid { c with stage := stage } }

def setRevocation (s : RevokeRun) (rid : Nat) (r : Revocation) (pc : RevokePc) : RevokeRun :=
  { s with revocations := s.revocations.put rid { r with pc := pc } }

def setApproval (s : RevokeRun) (aid : Nat) (a : Approval) (pc : ApprovePc) : RevokeRun :=
  { s with approvals := s.approvals.put aid { a with pc := pc } }

/-- Every revocation of this very certificate has been undone by a person. -/
def markReapproved (s : RevokeRun) (name : String) (fp : Fingerprint) : RevokeRun :=
  { s with revocations := s.revocations.mapVals fun _ r =>
      if r.name = name ∧ r.old = fp then { r with reapproved := true } else r }

def step (s : RevokeRun) : RevokeLabel → Option RevokeRun
  | .accept cert addr =>
    let layout := s.hub.added.foldl (fun l name => (l.addScreen name).1) s.layout
    some { s with
      conns := s.conns.put s.nextSid ⟨cert, addr, layout, .hello⟩
      nextSid := s.nextSid + 1 }
  | .hello sid msg =>
    match s.conns.get? sid with
    | some c =>
      match c.stage with
      | .hello => some (s.setStage sid c (.onHello c.layout msg))
      | _ => none
    | none => none
  | .authorize sid =>
    match s.conns.get? sid with
    | some c =>
      match c.stage with
      | .authorize screen version listed =>
        some (s.setStage sid c (.onAuthorize s.trust c.cert screen version listed))
      | _ => none
    | none => none
  | .note sid expired =>
    match s.conns.get? sid with
    | some c =>
      match c.stage, c.cert with
      | .note name, some fp =>
        some { s.setStage sid c (.refused (.untrusted name)) with
          trust := s.trust.notePending expired name fp c.addr }
      | _, _ => none
    | none => none
  | .nameTaken sid =>
    match s.conns.get? sid with
    | some c =>
      match c.stage with
      | .authorized screen version =>
        if s.hub.contains screen.name then some (s.setStage sid c (.refused (.nameTaken screen.name)))
        else some (s.setStage sid c (.welcome screen version))
      | _ => none
    | none => none
  | .sent sid =>
    match s.conns.get? sid with
    | some c =>
      match c.stage with
      | .welcome screen version => some (s.setStage sid c (.options screen version))
      | .options screen version => some (s.setStage sid c (.accepted screen version))
      | _ => none
    | none => none
  | .abort sid =>
    match s.conns.get? sid with
    | some c =>
      match c.stage.holds? with
      | none => some (s.setStage sid c .done)
      | some _ => none
    | none => none
  | .register sid =>
    match s.conns.get? sid with
    | some c =>
      match c.stage with
      | .accepted screen _ =>
        match s.hub.register screen.name (sanitizeMonitors screen) with
        | some hub => some { s.setStage sid c (.session screen.name) with hub := hub }
        | none => some (s.setStage sid c .done)
      | _ => none
    | none => none
  | .push sid =>
    match s.conns.get? sid with
    | some c =>
      match c.stage with
      | .session name =>
        match s.hub.clients.get? name with
        | some ⟨msg :: rest, monitors⟩ =>
          let s := { s with hub := { s.hub with
            clients := s.hub.clients.put name ⟨rest, monitors⟩ } }
          -- a close queued by the server itself ends the session here
          match msg with
          | .close _ => some (s.setStage sid c (.closing name))
          | _ => some s
        | _ => none
      | _ => none
    | none => none
  | .leave sid =>
    match s.conns.get? sid with
    | some c =>
      match c.stage with
      | .session name => some (s.setStage sid c (.closing name))
      | _ => none
    | none => none
  | .unregister sid =>
    match s.conns.get? sid with
    | some c =>
      match c.stage with
      | .closing name => some { s.setStage sid c .done with hub := s.hub.unregister name }
      | _ => none
    | none => none
  | .revoke name =>
    match s.trust.revoke name with
    | (trust, some old) =>
      some { s with
        trust := trust
        revocations := s.revocations.put s.nextRevocation { name := name, old := old, pc := .toSave }
        nextRevocation := s.nextRevocation + 1 }
    | (trust, none) => some { s with trust := trust }
  | .saveRevoked rid saved =>
    match s.revocations.get? rid with
    | some r =>
      match r.pc with
      | .toSave =>
        if saved then some (s.setRevocation rid r .toClose)
        else some { s.setRevocation rid r (.returned false) with
          trust := s.trust.restore r.name (some r.old) }
      | _ => none
    | none => none
  | .close rid =>
    match s.revocations.get? rid with
    | some r =>
      match r.pc with
      | .toClose => some { s.setRevocation rid r (.returned true) with
          hub := (s.hub.disconnect r.name .reconfigured).1 }
      | _ => none
    | none => none
  | .approve name fp =>
    let listed := s.desk.hasScreen name
    if !listed && !validScreenName name then some s
    else some { s with
      approvals := s.approvals.put s.nextApproval
        ⟨name, fp, listed, .toApprove (s.trust.trusted.get? name)⟩
      nextApproval := s.nextApproval + 1 }
  | .trust aid =>
    match s.approvals.get? aid with
    | some a =>
      match a.pc with
      | .toApprove previous =>
        match s.trust.approve a.name a.fp with
        | (trust, true) =>
          some { (s.markReapproved a.name a.fp).setApproval aid a (.toSave previous) with
            trust := trust }
        | (_, false) => some (s.setApproval aid a (.returned false))
      | _ => none
    | none => none
  | .saveApproved aid saved =>
    match s.approvals.get? aid with
    | some a =>
      match a.pc with
      | .toSave previous =>
        if saved then some (s.setApproval aid a (if a.listed then .returned true else .toJoin))
        else some { s.setApproval aid a (.returned false) with
          trust := s.trust.restore a.name previous }
      | _ => none
    | none => none
  | .join aid =>
    match s.approvals.get? aid with
    | some a =>
      match a.pc with
      | .toJoin => some { s.setApproval aid a .toAdd with desk := (s.desk.addScreen a.name).1 }
      | _ => none
    | none => none
  | .add aid =>
    match s.approvals.get? aid with
    | some a =>
      match a.pc with
      | .toAdd => some { s.setApproval aid a (.returned true) with hub := (s.hub.addScreen a.name).1 }
      | _ => none
    | none => none
  | .dismiss name fp => some { s with trust := (s.trust.dismiss name fp).1 }
  | .traffic name msg => some { s with hub := (s.hub.send name msg).1 }

end RevokeRun

/-- The handshakes and the administration of trust, as a transition system: any trust and any
layout to start from. -/
def revokeRuns : Lts RevokeRun RevokeLabel where
  init s := s.hub = {} ∧ s.conns = ∅ ∧ s.revocations = ∅ ∧ s.approvals = ∅
  step := RevokeRun.step

/-! ## Label by label

Where each label can happen, and what it does: every account of a step below goes through these. -/

namespace RevokeRun

variable {s s' : RevokeRun} {sid rid aid : Nat}

/-! ### Connections -/

/-- A Hello is judged by the desk as the connection found it. -/
theorem step_hello {msg : ClientMsg} (hs : s.step (.hello sid msg) = some s') :
    ∃ c, s.conns.get? sid = some c ∧ c.stage = .hello
      ∧ s' = s.setStage sid c (.onHello c.layout msg) := by
  unfold step at hs
  dsimp only at hs
  split at hs
  case h_2 => cases hs
  next c hc =>
  split at hs
  case h_2 => cases hs
  next hstage => exact ⟨c, hc, hstage, (Option.some.inj hs).symm⟩

/-- The authorization looks at the trusted map as it is now. -/
theorem step_authorize (hs : s.step (.authorize sid) = some s') :
    ∃ c screen version listed, s.conns.get? sid = some c
      ∧ c.stage = .authorize screen version listed
      ∧ s' = s.setStage sid c (.onAuthorize s.trust c.cert screen version listed) := by
  unfold step at hs
  dsimp only at hs
  split at hs
  case h_2 => cases hs
  next c hc =>
  split at hs
  case h_2 => cases hs
  next hstage => exact ⟨c, _, _, _, hc, hstage, (Option.some.inj hs).symm⟩

/-- A request of an unknown certificate is noted, and its connection turned away. -/
theorem step_note {expired : Trust.Pending → Bool} (hs : s.step (.note sid expired) = some s') :
    ∃ c name fp, s.conns.get? sid = some c ∧ c.stage = .note name ∧ c.cert = some fp
      ∧ s' = { s.setStage sid c (.refused (.untrusted name)) with
          trust := s.trust.notePending expired name fp c.addr } := by
  unfold step at hs
  dsimp only at hs
  split at hs
  case h_2 => cases hs
  next c hc =>
  split at hs
  case h_2 => cases hs
  next hstage hcert => exact ⟨c, _, _, hc, hstage, hcert, (Option.some.inj hs).symm⟩

/-- The name is looked up. -/
theorem step_nameTaken (hs : s.step (.nameTaken sid) = some s') :
    ∃ c screen version, s.conns.get? sid = some c ∧ c.stage = .authorized screen version
      ∧ (s.hub.contains screen.name = true
          ∧ s' = s.setStage sid c (.refused (.nameTaken screen.name))
        ∨ s.hub.contains screen.name = false ∧ s' = s.setStage sid c (.welcome screen version)) := by
  unfold step at hs
  dsimp only at hs
  split at hs
  case h_2 => cases hs
  next c hc =>
  split at hs
  case h_2 => cases hs
  next screen version hstage =>
  refine ⟨c, screen, version, hc, hstage, ?_⟩
  split at hs
  · next hin => exact .inl ⟨hin, (Option.some.inj hs).symm⟩
  · next hout => exact .inr ⟨Bool.eq_false_iff.mpr hout, (Option.some.inj hs).symm⟩

/-- A message sent is the Welcome or the options. -/
theorem step_sent (hs : s.step (.sent sid) = some s') :
    ∃ c screen version, s.conns.get? sid = some c
      ∧ (c.stage = .welcome screen version ∧ s' = s.setStage sid c (.options screen version)
        ∨ c.stage = .options screen version ∧ s' = s.setStage sid c (.accepted screen version)) := by
  unfold step at hs
  dsimp only at hs
  split at hs
  case h_2 => cases hs
  next c hc =>
  split at hs
  · next hstage => exact ⟨c, _, _, hc, .inl ⟨hstage, (Option.some.inj hs).symm⟩⟩
  · next hstage => exact ⟨c, _, _, hc, .inr ⟨hstage, (Option.some.inj hs).symm⟩⟩
  · cases hs

/-- A connection may be aborted at any stage at which it holds no name. -/
theorem step_abort (hs : s.step (.abort sid) = some s') :
    ∃ c, s.conns.get? sid = some c ∧ c.stage.holds? = none ∧ s' = s.setStage sid c .done := by
  unfold step at hs
  dsimp only at hs
  split at hs
  case h_2 => cases hs
  next c hc =>
  split at hs
  case h_2 => cases hs
  next hfree => exact ⟨c, hc, hfree, (Option.some.inj hs).symm⟩

/-- The name is claimed, or was claimed meanwhile and the connection ends. -/
theorem step_register (hs : s.step (.register sid) = some s') :
    ∃ c screen version, s.conns.get? sid = some c ∧ c.stage = .accepted screen version
      ∧ ((∃ hub, s.hub.register screen.name (sanitizeMonitors screen) = some hub
          ∧ s' = { s.setStage sid c (.session screen.name) with hub := hub })
        ∨ s' = s.setStage sid c .done) := by
  unfold step at hs
  dsimp only at hs
  split at hs
  case h_2 => cases hs
  next c hc =>
  split at hs
  case h_2 => cases hs
  next screen version hstage =>
  refine ⟨c, screen, version, hc, hstage, ?_⟩
  split at hs
  · next hub hreg => exact .inl ⟨hub, hreg, (Option.some.inj hs).symm⟩
  · exact .inr (Option.some.inj hs).symm

/-- The first message of its outbox leaves a session; a `Close` of the server's own ends it. -/
theorem step_push (hs : s.step (.push sid) = some s') :
    ∃ c name msg rest monitors, s.conns.get? sid = some c ∧ c.stage = .session name
      ∧ s.hub.clients.get? name = some ⟨msg :: rest, monitors⟩
      ∧ ((∃ reason, msg = .close reason)
          ∧ s' = { s.setStage sid c (.closing name) with
              hub := { s.hub with clients := s.hub.clients.put name ⟨rest, monitors⟩ } }
        ∨ (∀ reason, msg ≠ .close reason)
          ∧ s' = { s with
              hub := { s.hub with clients := s.hub.clients.put name ⟨rest, monitors⟩ } }) := by
  unfold step at hs
  dsimp only at hs
  split at hs
  case h_2 => cases hs
  next c hc =>
  split at hs
  case h_2 => cases hs
  next name hstage =>
  split at hs
  case h_2 => cases hs
  next msg rest monitors he =>
  refine ⟨c, name, msg, rest, monitors, hc, hstage, he, ?_⟩
  split at hs
  · exact .inl ⟨⟨_, rfl⟩, (Option.some.inj hs).symm⟩
  · next hkeep => exact .inr ⟨hkeep, (Option.some.inj hs).symm⟩

/-- A session that ends has yet to give its name up. -/
theorem step_leave (hs : s.step (.leave sid) = some s') :
    ∃ c name, s.conns.get? sid = some c ∧ c.stage = .session name
      ∧ s' = s.setStage sid c (.closing name) := by
  unfold step at hs
  dsimp only at hs
  split at hs
  case h_2 => cases hs
  next c hc =>
  split at hs
  case h_2 => cases hs
  next hstage => exact ⟨c, _, hc, hstage, (Option.some.inj hs).symm⟩

/-- A session that has ended gives its name up. -/
theorem step_unregister (hs : s.step (.unregister sid) = some s') :
    ∃ c name, s.conns.get? sid = some c ∧ c.stage = .closing name
      ∧ s' = { s.setStage sid c .done with hub := s.hub.unregister name } := by
  unfold step at hs
  dsimp only at hs
  split at hs
  case h_2 => cases hs
  next c hc =>
  split at hs
  case h_2 => cases hs
  next hstage => exact ⟨c, _, hc, hstage, (Option.some.inj hs).symm⟩

/-! ### The administration of trust -/

/-- What was trusted is taken away, to be saved; or nothing was. -/
theorem step_revoke {name : String} (hs : s.step (.revoke name) = some s') :
    (∃ old, s.trust.trusted.get? name = some old
      ∧ s' = { s with
          trust := { s.trust with trusted := s.trust.trusted.drop name }
          revocations := s.revocations.put s.nextRevocation
            { name := name, old := old, pc := .toSave }
          nextRevocation := s.nextRevocation + 1 })
    ∨ s.trust.trusted.get? name = none
      ∧ s' = { s with trust := { s.trust with trusted := s.trust.trusted.drop name } } := by
  simp only [step, Trust.revoke] at hs
  split at hs
  · next hrevoke =>
    obtain ⟨rfl, hold⟩ := Prod.mk.inj hrevoke
    exact .inl ⟨_, hold, (Option.some.inj hs).symm⟩
  · next hrevoke =>
    obtain ⟨rfl, hnone⟩ := Prod.mk.inj hrevoke
    exact .inr ⟨hnone, (Option.some.inj hs).symm⟩

/-- A revocation that cannot be saved puts back what it took. -/
theorem step_saveRevoked {saved : Bool} (hs : s.step (.saveRevoked rid saved) = some s') :
    ∃ r, s.revocations.get? rid = some r ∧ r.pc = .toSave
      ∧ (saved = true ∧ s' = s.setRevocation rid r .toClose
        ∨ saved = false ∧ s' = { s.setRevocation rid r (.returned false) with
            trust := s.trust.restore r.name (some r.old) }) := by
  unfold step at hs
  dsimp only at hs
  split at hs
  case h_2 => cases hs
  next r hr =>
  split at hs
  case h_2 => cases hs
  next hpc =>
  refine ⟨r, hr, hpc, ?_⟩
  cases saved with
  | true => exact .inl ⟨rfl, (Option.some.inj hs).symm⟩
  | false => exact .inr ⟨rfl, (Option.some.inj hs).symm⟩

/-- A revocation that was saved closes whoever runs under the name. -/
theorem step_close (hs : s.step (.close rid) = some s') :
    ∃ r, s.revocations.get? rid = some r ∧ r.pc = .toClose
      ∧ s' = { s.setRevocation rid r (.returned true) with
          hub := (s.hub.disconnect r.name .reconfigured).1 } := by
  unfold step at hs
  dsimp only at hs
  split at hs
  case h_2 => cases hs
  next r hr =>
  split at hs
  case h_2 => cases hs
  next hpc => exact ⟨r, hr, hpc, (Option.some.inj hs).symm⟩

/-- A name that could not join the desk is refused. -/
theorem step_approve {name : String} {fp : Fingerprint} (hs : s.step (.approve name fp) = some s') :
    s' = s ∨ s' = { s with
      approvals := s.approvals.put s.nextApproval
        ⟨name, fp, s.desk.hasScreen name, .toApprove (s.trust.trusted.get? name)⟩
      nextApproval := s.nextApproval + 1 } := by
  unfold step at hs
  dsimp only at hs
  split at hs
  · exact .inl (Option.some.inj hs).symm
  · exact .inr (Option.some.inj hs).symm

/-- A certificate is trusted that a pending request has shown, or none is. -/
theorem step_trust (hs : s.step (.trust aid) = some s') :
    ∃ a previous, s.approvals.get? aid = some a ∧ a.pc = .toApprove previous
      ∧ ((∃ p ∈ s.trust.pending, p.name = a.name ∧ p.fingerprint = a.fp)
          ∧ s' = { (s.markReapproved a.name a.fp).setApproval aid a (.toSave previous) with
              trust := {
                trusted := s.trust.trusted.put a.name a.fp
                pending := s.trust.pending.filter (·.name != a.name) } }
        ∨ s' = s.setApproval aid a (.returned false)) := by
  unfold step at hs
  dsimp only at hs
  split at hs
  case h_2 => cases hs
  next a ha =>
  split at hs
  case h_2 => cases hs
  next previous hpc =>
  refine ⟨a, previous, ha, hpc, ?_⟩
  split at hs
  · next trust happrove =>
    unfold Trust.approve at happrove
    split at happrove
    · next hany =>
      obtain ⟨rfl, -⟩ := Prod.mk.inj happrove
      obtain ⟨p, hp, his⟩ := List.any_eq_true.mp hany
      unfold Trust.Pending.is at his
      rw [Bool.and_eq_true, beq_iff_eq, beq_iff_eq] at his
      exact .inl ⟨⟨p, hp, his⟩, (Option.some.inj hs).symm⟩
    · cases (Prod.mk.inj happrove).2
  · exact .inr (Option.some.inj hs).symm

/-- An approval that cannot be saved puts back what was there. -/
theorem step_saveApproved {saved : Bool} (hs : s.step (.saveApproved aid saved) = some s') :
    ∃ a previous, s.approvals.get? aid = some a ∧ a.pc = .toSave previous
      ∧ (saved = true
          ∧ s' = s.setApproval aid a (if a.listed then .returned true else .toJoin)
        ∨ saved = false ∧ s' = { s.setApproval aid a (.returned false) with
            trust := s.trust.restore a.name previous }) := by
  unfold step at hs
  dsimp only at hs
  split at hs
  case h_2 => cases hs
  next a ha =>
  split at hs
  case h_2 => cases hs
  next previous hpc =>
  refine ⟨a, previous, ha, hpc, ?_⟩
  cases saved with
  | true => exact .inl ⟨rfl, (Option.some.inj hs).symm⟩
  | false => exact .inr ⟨rfl, (Option.some.inj hs).symm⟩

/-- An approved machine joins the desk. -/
theorem step_join (hs : s.step (.join aid) = some s') :
    ∃ a, s.approvals.get? aid = some a ∧ a.pc = .toJoin
      ∧ s' = { s.setApproval aid a .toAdd with desk := (s.desk.addScreen a.name).1 } := by
  unfold step at hs
  dsimp only at hs
  split at hs
  case h_2 => cases hs
  next a ha =>
  split at hs
  case h_2 => cases hs
  next hpc => exact ⟨a, ha, hpc, (Option.some.inj hs).symm⟩

/-- An approved machine is added to the hub. -/
theorem step_add (hs : s.step (.add aid) = some s') :
    ∃ a, s.approvals.get? aid = some a ∧ a.pc = .toAdd
      ∧ s' = { s.setApproval aid a (.returned true) with hub := (s.hub.addScreen a.name).1 } := by
  unfold step at hs
  dsimp only at hs
  split at hs
  case h_2 => cases hs
  next a ha =>
  split at hs
  case h_2 => cases hs
  next hpc => exact ⟨a, ha, hpc, (Option.some.inj hs).symm⟩

end RevokeRun

/-! ## What one step can do

The steps, sorted by what they change. -/

/-- Every outcome of a step, as far as trust, registrations and sessions go. -/
inductive RevokeStep (s : RevokeRun) : RevokeLabel → RevokeRun → Prop where
  | idle {l : RevokeLabel} {s' : RevokeRun} (htrust : s'.trust.trusted = s.trust.trusted)
      (hrev : s'.revocations = s.revocations) (hclients : s'.hub.clients = s.hub.clients)
      (hconns : s'.conns = s.conns) : RevokeStep s l s'
  | accept {l : RevokeLabel} {s' : RevokeRun} {c : TlsConnection} (hstage : c.stage = .hello)
      (htrust : s'.trust.trusted = s.trust.trusted) (hrev : s'.revocations = s.revocations)
      (hclients : s'.hub.clients = s.hub.clients)
      (hconns : s'.conns = s.conns.put s.nextSid c) : RevokeStep s l s'
  /-- A connection moves on: only the trusted certificate gets past the check. -/
  | move {l : RevokeLabel} {s' : RevokeRun} {sid : Nat} {c : TlsConnection}
      {stage : HandshakeStage} (hc : s.conns.get? sid = some c)
      (hpassed : ∀ n, stage.passed? = some n → c.stage.passed? = some n
        ∨ ∃ fp, c.cert = some fp ∧ s.trust.trusted.get? n = some fp)
      (hholds : ∀ n, stage.holds? = some n → c.stage.holds? = some n)
      (hsession : ∀ n, stage = .session n → c.stage = .session n)
      (htrust : s'.trust.trusted = s.trust.trusted) (hrev : s'.revocations = s.revocations)
      (hclients : s'.hub.clients = s.hub.clients)
      (hconns : s'.conns = s.conns.put sid { c with stage := stage }) : RevokeStep s l s'
  | register {l : RevokeLabel} {s' : RevokeRun} {sid : Nat} {c : TlsConnection}
      {screen : ScreenInfo} {version : Version} {monitors : List Rect}
      (hc : s.conns.get? sid = some c) (hstage : c.stage = .accepted screen version)
      (hfree : s.hub.clients.get? screen.name = none)
      (htrust : s'.trust.trusted = s.trust.trusted) (hrev : s'.revocations = s.revocations)
      (hclients : s'.hub.clients = s.hub.clients.put screen.name ⟨[], monitors⟩)
      (hconns : s'.conns = s.conns.put sid { c with stage := .session screen.name }) :
      RevokeStep s l s'
  | push {l : RevokeLabel} {s' : RevokeRun} {name : String} {msg : ServerMsg}
      {rest : List ServerMsg} {monitors : List Rect}
      (he : s.hub.clients.get? name = some ⟨msg :: rest, monitors⟩)
      (hkeep : ∀ reason, msg ≠ .close reason)
      (htrust : s'.trust.trusted = s.trust.trusted) (hrev : s'.revocations = s.revocations)
      (hclients : s'.hub.clients = s.hub.clients.put name ⟨rest, monitors⟩)
      (hconns : s'.conns = s.conns) : RevokeStep s l s'
  | pushClose {l : RevokeLabel} {s' : RevokeRun} {sid : Nat} {c : TlsConnection} {name : String}
      {msg : ServerMsg} {rest : List ServerMsg} {monitors : List Rect}
      (hc : s.conns.get? sid = some c) (hstage : c.stage = .session name)
      (he : s.hub.clients.get? name = some ⟨msg :: rest, monitors⟩)
      (htrust : s'.trust.trusted = s.trust.trusted) (hrev : s'.revocations = s.revocations)
      (hclients : s'.hub.clients = s.hub.clients.put name ⟨rest, monitors⟩)
      (hconns : s'.conns = s.conns.put sid { c with stage := .closing name }) : RevokeStep s l s'
  | unregister {l : RevokeLabel} {s' : RevokeRun} {sid : Nat} {c : TlsConnection} {name : String}
      (hc : s.conns.get? sid = some c) (hstage : c.stage = .closing name)
      (htrust : s'.trust.trusted = s.trust.trusted) (hrev : s'.revocations = s.revocations)
      (hclients : s'.hub.clients = s.hub.clients.drop name)
      (hconns : s'.conns = s.conns.put sid { c with stage := .done }) : RevokeStep s l s'
  | revoke {l : RevokeLabel} {s' : RevokeRun} {name : String} {old : Fingerprint}
      (htrust : s'.trust.trusted = s.trust.trusted.drop name)
      (hrev : s'.revocations
        = s.revocations.put s.nextRevocation { name := name, old := old, pc := .toSave })
      (hclients : s'.hub.clients = s.hub.clients) (hconns : s'.conns = s.conns) :
      RevokeStep s l s'
  | savedRevoked {l : RevokeLabel} {s' : RevokeRun} {rid : Nat} {r : Revocation}
      (hr : s.revocations.get? rid = some r) (hpc : r.pc = .toSave)
      (htrust : s'.trust.trusted = s.trust.trusted)
      (hrev : s'.revocations = s.revocations.put rid { r with pc := .toClose })
      (hclients : s'.hub.clients = s.hub.clients) (hconns : s'.conns = s.conns) :
      RevokeStep s l s'
  | unsavedRevoked {s' : RevokeRun} {rid : Nat} {r : Revocation}
      (hr : s.revocations.get? rid = some r)
      (htrust : s'.trust = s.trust.restore r.name (some r.old))
      (hrev : s'.revocations = s.revocations.put rid { r with pc := .returned false })
      (hclients : s'.hub.clients = s.hub.clients) (hconns : s'.conns = s.conns) :
      RevokeStep s (.saveRevoked rid false) s'
  | close {s' : RevokeRun} {rid : Nat} {r : Revocation} {reason : CloseReason}
      (hr : s.revocations.get? rid = some r) (hpc : r.pc = .toClose)
      (htrust : s'.trust.trusted = s.trust.trusted)
      (hrev : s'.revocations = s.revocations.put rid { r with pc := .returned true })
      (hclients : s'.hub.clients = (s.hub.disconnect r.name reason).1.clients)
      (hconns : s'.conns = s.conns) : RevokeStep s (.close rid) s'
  | reapproved {l : RevokeLabel} {s' : RevokeRun} {name : String} {fp : Fingerprint}
      (htrust : s'.trust.trusted = s.trust.trusted.put name fp)
      (hrev : s'.revocations = (s.markReapproved name fp).revocations)
      (hclients : s'.hub.clients = s.hub.clients) (hconns : s'.conns = s.conns) :
      RevokeStep s l s'
  | unsavedApproved {s' : RevokeRun} {aid : Nat} {a : Approval} {previous : Option Fingerprint}
      (ha : s.approvals.get? aid = some a) (hpc : a.pc = .toSave previous)
      (htrust : s'.trust = s.trust.restore a.name previous)
      (hrev : s'.revocations = s.revocations)
      (hclients : s'.hub.clients = s.hub.clients) (hconns : s'.conns = s.conns) :
      RevokeStep s (.saveApproved aid false) s'
  | traffic {l : RevokeLabel} {s' : RevokeRun} {name : String} {msg : ServerMsg}
      (htrust : s'.trust.trusted = s.trust.trusted) (hrev : s'.revocations = s.revocations)
      (hclients : s'.hub.clients = (s.hub.send name msg).1.clients)
      (hconns : s'.conns = s.conns) : RevokeStep s l s'

namespace RevokeStep

variable {s : RevokeRun} {l : RevokeLabel} {sid : Nat} {c : TlsConnection} {stage : HandshakeStage}

/-- A connection that neither passes the check nor gets a session. -/
theorem of_stopped (hc : s.conns.get? sid = some c) (hpassed : stage.passed? = none)
    (hholds : stage.holds? = none) : RevokeStep s l (s.setStage sid c stage) := by
  refine .move hc (fun n hn => ?_) (fun n hn => ?_) ?_ rfl rfl rfl rfl
  · rw [hpassed] at hn
    cases hn
  · rw [hholds] at hn
    cases hn
  · rintro n rfl
    cases hholds

/-- One that passed the check and goes on. -/
theorem of_kept (hc : s.conns.get? sid = some c) (hpassed : stage.passed? = c.stage.passed?)
    (hholds : stage.holds? = none) : RevokeStep s l (s.setStage sid c stage) := by
  refine .move hc (fun n hn => .inl (hpassed ▸ hn)) (fun n hn => ?_) ?_ rfl rfl rfl rfl
  · rw [hholds] at hn
    cases hn
  · rintro n rfl
    cases hholds

/-- One whose certificate is checked. -/
theorem of_checked (hc : s.conns.get? sid = some c) (screen : ScreenInfo) (version : Version)
    (listed : Bool) :
    RevokeStep s l (s.setStage sid c (.onAuthorize s.trust c.cert screen version listed)) := by
  have hholds := HandshakeStage.holds_onAuthorize s.trust c.cert screen version listed
  refine .move hc (fun n hn => .inr (HandshakeStage.passed_onAuthorize hn)) (fun n hn => ?_)
    (fun n hn => ?_) rfl rfl rfl rfl
  · rw [hholds] at hn
    cases hn
  · rw [hn] at hholds
    cases hholds

end RevokeStep

/-- **Every step is one of those of `RevokeStep`**, taken apart once and for all. -/
theorem revokeStep_of_step {s s' : RevokeRun} {l : RevokeLabel} (hs : s.step l = some s') :
    RevokeStep s l s' := by
  -- each label by the lemma that says what it does
  cases l with
  | accept cert addr => exact Option.some.inj hs ▸ .accept rfl rfl rfl rfl rfl
  | hello sid msg =>
    obtain ⟨c, hc, -, rfl⟩ := RevokeRun.step_hello hs
    obtain ⟨hpassed, hholds⟩ := HandshakeStage.passed_onHello c.layout msg
    exact .of_stopped hc hpassed hholds
  | authorize sid =>
    obtain ⟨c, screen, version, listed, hc, -, rfl⟩ := RevokeRun.step_authorize hs
    exact .of_checked hc screen version listed
  | note sid expired =>
    obtain ⟨c, name, fp, hc, -, -, rfl⟩ := RevokeRun.step_note hs
    refine .move hc (fun n hn => ?_) (fun n hn => ?_) (fun n hn => ?_)
      (Trust.notePending_trusted _ _ _ _ _) rfl rfl rfl <;> cases hn
  | nameTaken sid =>
    obtain ⟨c, screen, version, hc, hstage, ⟨-, rfl⟩ | ⟨-, rfl⟩⟩ := RevokeRun.step_nameTaken hs
    · exact .of_stopped hc rfl rfl
    · exact .of_kept hc (by rw [hstage]; rfl) rfl
  | sent sid =>
    obtain ⟨c, screen, version, hc, ⟨hstage, rfl⟩ | ⟨hstage, rfl⟩⟩ := RevokeRun.step_sent hs
    · exact .of_kept hc (by rw [hstage]; rfl) rfl
    · exact .of_kept hc (by rw [hstage]; rfl) rfl
  | abort sid =>
    obtain ⟨c, hc, -, rfl⟩ := RevokeRun.step_abort hs
    exact .of_stopped hc rfl rfl
  | register sid =>
    obtain ⟨c, screen, version, hc, hstage, ⟨hub, hreg, rfl⟩ | rfl⟩ := RevokeRun.step_register hs
    · obtain ⟨hfree, hclients, -⟩ := Hub.register_eq hreg
      exact .register hc hstage hfree rfl rfl hclients rfl
    · exact .of_stopped hc rfl rfl
  | push sid =>
    obtain ⟨c, name, msg, rest, monitors, hc, hstage, he, ⟨-, rfl⟩ | ⟨hkeep, rfl⟩⟩ :=
      RevokeRun.step_push hs
    · exact .pushClose hc hstage he rfl rfl rfl rfl
    · exact .push he hkeep rfl rfl rfl rfl
  | leave sid =>
    obtain ⟨c, name, hc, hstage, rfl⟩ := RevokeRun.step_leave hs
    refine .move hc (fun n hn => ?_) (fun n hn => ?_) (fun n hn => ?_) rfl rfl rfl rfl
    · cases hn
    · rw [hstage]
      exact hn
    · cases hn
  | unregister sid =>
    obtain ⟨c, name, hc, hstage, rfl⟩ := RevokeRun.step_unregister hs
    exact .unregister hc hstage rfl rfl rfl rfl
  | revoke name =>
    obtain ⟨old, -, rfl⟩ | ⟨hnone, rfl⟩ := RevokeRun.step_revoke hs
    · exact .revoke rfl rfl rfl rfl
    · exact .idle (Dict.drop_of_none hnone) rfl rfl rfl
  | saveRevoked rid saved =>
    obtain ⟨r, hr, hpc, ⟨-, rfl⟩ | ⟨rfl, rfl⟩⟩ := RevokeRun.step_saveRevoked hs
    · exact .savedRevoked hr hpc rfl rfl rfl rfl
    · exact .unsavedRevoked hr rfl rfl rfl rfl
  | close rid =>
    obtain ⟨r, hr, hpc, rfl⟩ := RevokeRun.step_close hs
    exact .close hr hpc rfl rfl rfl rfl
  | approve name fp =>
    obtain rfl | rfl := RevokeRun.step_approve hs <;> exact .idle rfl rfl rfl rfl
  | trust aid =>
    obtain ⟨a, previous, -, -, ⟨-, rfl⟩ | rfl⟩ := RevokeRun.step_trust hs
    · exact .reapproved rfl rfl rfl rfl
    · exact .idle rfl rfl rfl rfl
  | saveApproved aid saved =>
    obtain ⟨a, previous, ha, hpc, ⟨-, rfl⟩ | ⟨rfl, rfl⟩⟩ := RevokeRun.step_saveApproved hs
    · exact .idle rfl rfl rfl rfl
    · exact .unsavedApproved ha hpc rfl rfl rfl rfl
  | join aid =>
    obtain ⟨a, -, -, rfl⟩ := RevokeRun.step_join hs
    exact .idle rfl rfl rfl rfl
  | add aid =>
    obtain ⟨a, -, -, rfl⟩ := RevokeRun.step_add hs
    refine .idle rfl rfl ?_ rfl
    show (s.hub.addScreen a.name).1.clients = s.hub.clients
    unfold Hub.addScreen
    split <;> rfl
  | dismiss name fp => exact Option.some.inj hs ▸ .idle rfl rfl rfl rfl
  | traffic name msg => exact Option.some.inj hs ▸ .traffic rfl rfl rfl rfl

/-! ## Who holds a name

Each registered name has one holder. -/

/-- A session holds its name until its registration is dropped, and nobody else does. -/
structure HolderWf (s : RevokeRun) : Prop where
  registered : ∀ sid c n, s.conns.get? sid = some c → c.stage.holds? = some n →
    s.hub.contains n = true
  unique : ∀ sid sid' c c' n, s.conns.get? sid = some c → s.conns.get? sid' = some c' →
    c.stage.holds? = some n → c'.stage.holds? = some n → sid = sid'

/-- The names held are some of those held before, and all of those are still registered. -/
theorem HolderWf.shrink {s s' : RevokeRun} (h : HolderWf s)
    (hold : ∀ sid c' n, s'.conns.get? sid = some c' → c'.stage.holds? = some n →
      ∃ c, s.conns.get? sid = some c ∧ c.stage.holds? = some n)
    (hcontains : ∀ sid c' n, s'.conns.get? sid = some c' → c'.stage.holds? = some n →
      s.hub.contains n = true → s'.hub.contains n = true) : HolderWf s' := by
  constructor
  · intro sid c' n hc' hn
    obtain ⟨c, hc, hn'⟩ := hold sid c' n hc' hn
    exact hcontains sid c' n hc' hn (h.registered sid c n hc hn')
  · intro sid₁ sid₂ c₁ c₂ n hc₁ hc₂ hn₁ hn₂
    obtain ⟨d₁, hd₁, hm₁⟩ := hold sid₁ c₁ n hc₁ hn₁
    obtain ⟨d₂, hd₂, hm₂⟩ := hold sid₂ c₂ n hc₂ hn₂
    exact h.unique sid₁ sid₂ d₁ d₂ n hd₁ hd₂ hm₁ hm₂

/-- Where a name held after one connection moved was held before. -/
theorem holds_of_put {s : RevokeRun} {sid : Nat} {c c₁ : TlsConnection}
    (hc : s.conns.get? sid = some c)
    (hholds : ∀ n, c₁.stage.holds? = some n → c.stage.holds? = some n) {sid' : Nat}
    {c' : TlsConnection} {n : String} (hc' : (s.conns.put sid c₁).get? sid' = some c')
    (hn : c'.stage.holds? = some n) :
    ∃ c, s.conns.get? sid' = some c ∧ c.stage.holds? = some n := by
  rw [Dict.get?_put] at hc'
  split at hc'
  · next he =>
    obtain rfl := Option.some.inj hc'
    exact ⟨c, he ▸ hc, hholds n hn⟩
  · exact ⟨c', hc', hn⟩

/-- Replacing an entry unregisters nobody. -/
theorem contains_put (h : Hub ServerMsg) (name n : String) (e : Entry ServerMsg)
    (hn : h.contains n = true) :
    ((h.clients.put name e).get? n).isSome = true := by
  rw [Dict.get?_put]
  split
  · rfl
  · exact hn

/-- No step lets a name be registered that no connection holds, or two hold one. -/
theorem holderWf_step {s s' : RevokeRun} {l : RevokeLabel} (h : HolderWf s)
    (hs : RevokeStep s l s') : HolderWf s' := by
  have hsame : s'.hub.clients = s.hub.clients → ∀ n, s.hub.contains n = true →
      s'.hub.contains n = true := by
    intro hclients n hn
    rw [Hub.contains, hclients]
    exact hn
  have hstay : s'.conns = s.conns → ∀ sid c' n, s'.conns.get? sid = some c' →
      c'.stage.holds? = some n → ∃ c, s.conns.get? sid = some c ∧ c.stage.holds? = some n := by
    intro hconns sid c' n hc' hn
    rw [hconns] at hc'
    exact ⟨c', hc', hn⟩
  cases hs with
  | idle htrust hrev hclients hconns =>
    exact h.shrink (hstay hconns) fun _ _ n _ _ => hsame hclients n
  | revoke htrust hrev hclients hconns =>
    exact h.shrink (hstay hconns) fun _ _ n _ _ => hsame hclients n
  | savedRevoked hr hpc htrust hrev hclients hconns =>
    exact h.shrink (hstay hconns) fun _ _ n _ _ => hsame hclients n
  | unsavedRevoked hr htrust hrev hclients hconns =>
    exact h.shrink (hstay hconns) fun _ _ n _ _ => hsame hclients n
  | reapproved htrust hrev hclients hconns =>
    exact h.shrink (hstay hconns) fun _ _ n _ _ => hsame hclients n
  | unsavedApproved ha hpc htrust hrev hclients hconns =>
    exact h.shrink (hstay hconns) fun _ _ n _ _ => hsame hclients n
  | @accept l s' c hstage htrust hrev hclients hconns =>
    refine h.shrink ?_ fun _ _ n _ _ => hsame hclients n
    intro sid c' n hc' hn
    rw [hconns, Dict.get?_put] at hc'
    split at hc'
    · obtain rfl := Option.some.inj hc'
      rw [hstage] at hn
      cases hn
    · exact ⟨c', hc', hn⟩
  | move hc hpassed hholds hsession htrust hrev hclients hconns =>
    refine h.shrink ?_ fun _ _ n _ _ => hsame hclients n
    intro sid c' n hc' hn
    rw [hconns] at hc'
    exact holds_of_put hc hholds hc' hn
  | @register l s' sid c screen version monitors hc hstage hfree htrust hrev hclients hconns =>
    -- the name was free, so nobody held it
    have hnobody : ∀ sid' c', s.conns.get? sid' = some c' →
        c'.stage.holds? ≠ some screen.name := by
      intro sid' c' hc' hn
      have hreg := h.registered sid' c' _ hc' hn
      rw [Hub.contains, hfree] at hreg
      cases hreg
    constructor
    · intro sid' c' n hc' hn
      rw [hconns, Dict.get?_put] at hc'
      rw [Hub.contains, hclients]
      split at hc'
      · obtain rfl := Option.some.inj hc'
        obtain rfl := Option.some.inj hn
        rw [Dict.get?_put, if_pos rfl]; rfl
      · exact contains_put s.hub _ n _ (h.registered sid' c' n hc' hn)
    · intro sid₁ sid₂ c₁ c₂ n hc₁ hc₂ hn₁ hn₂
      rw [hconns, Dict.get?_put] at hc₁ hc₂
      split at hc₁ <;> split at hc₂
      · next he he' => rw [he, he']
      · obtain rfl := Option.some.inj hc₁
        obtain rfl := Option.some.inj hn₁
        exact absurd hn₂ (hnobody sid₂ c₂ hc₂)
      · obtain rfl := Option.some.inj hc₂
        obtain rfl := Option.some.inj hn₂
        exact absurd hn₁ (hnobody sid₁ c₁ hc₁)
      · exact h.unique sid₁ sid₂ c₁ c₂ n hc₁ hc₂ hn₁ hn₂
  | push he hkeep htrust hrev hclients hconns =>
    refine h.shrink (hstay hconns) fun _ _ n _ _ hn => ?_
    rw [Hub.contains, hclients]
    exact contains_put s.hub _ n _ hn
  | pushClose hc hstage he htrust hrev hclients hconns =>
    refine h.shrink ?_ fun _ _ n _ _ hn => ?_
    · intro sid' c' n hc' hn
      rw [hconns] at hc'
      exact holds_of_put hc (fun n hn => by rw [hstage]; exact hn) hc' hn
    · rw [Hub.contains, hclients]
      exact contains_put s.hub _ n _ hn
  | @unregister l s' sid c name hc hstage htrust hrev hclients hconns =>
    have hold : ∀ sid' c' n, s'.conns.get? sid' = some c' → c'.stage.holds? = some n →
        sid' ≠ sid ∧ s.conns.get? sid' = some c' := by
      intro sid' c' n hc' hn
      rw [hconns, Dict.get?_put] at hc'
      split at hc'
      · obtain rfl := Option.some.inj hc'
        cases hn
      · next hne => exact ⟨hne, hc'⟩
    refine h.shrink (fun sid' c' n hc' hn => ⟨c', (hold sid' c' n hc' hn).2, hn⟩) ?_
    intro sid' c' n hc' hn hreg
    obtain ⟨hne, hc₀⟩ := hold sid' c' n hc' hn
    -- the connection that left held the name, so who holds one now holds another
    have hother : n ≠ name := by
      rintro rfl
      exact hne (h.unique sid' sid c' c n hc₀ hc hn (by rw [hstage]; rfl))
    rw [Hub.contains, hclients, Dict.get?_drop, if_neg hother]
    exact hreg
  | close hr hpc htrust hrev hclients hconns =>
    refine h.shrink (hstay hconns) fun _ _ n _ _ hn => ?_
    rw [Hub.contains, hclients]
    exact (Hub.contains_send _ _ _ _).trans hn
  | traffic htrust hrev hclients hconns =>
    refine h.shrink (hstay hconns) fun _ _ n _ _ hn => ?_
    rw [Hub.contains, hclients]
    exact (Hub.contains_send _ _ _ _).trans hn

/-- The invariant holds in every state reached. -/
theorem holderWf_reach {ok : RevokeRun → RevokeLabel → Prop} {s : RevokeRun}
    (hs : revokeRuns.Reach ok s) : HolderWf s := by
  refine Lts.Reach.invariant (P := HolderWf) ?_ ?_ hs
  · rintro s ⟨-, hconns, -, -⟩
    constructor <;> intros <;> simp_all
  · intro _ _ _ _ ih _ hl
    exact holderWf_step ih (revokeStep_of_step hl)

end GeserDesk
