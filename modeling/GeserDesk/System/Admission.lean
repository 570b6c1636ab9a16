import GeserDesk.System.Revocation

/-!
# Who is admitted

A run is looked at with the record of its steps (`Lts.Run`), so that what was trusted at a check,
and what was said to a peer, can be spoken of.

* **`admission`**: a name is registered only for a listed or approved screen whose certificate was
  the trusted one when it was checked; the trust of a name changes only by an approval of a request
  that was pending, by a revocation, or by what undoes one of these; and every peer that is not
  admitted has sent one message and been sent one, exactly as long as no connection that passed
  every check finds its name claimed.
* **`register_race_unrejected`**: a peer that passes every check and then finds its name claimed is
  not told.

`Moves` is every way a connection moves on, from which the invariants are derived.
-/

namespace GeserDesk

/-! ## What is exchanged with a peer

The messages between a connection and its peer, read off the labels of the run. -/

inductive Exchange where
  /-- The peer's message. -/
  | heard (msg : ClientMsg)
  /-- `Close(ProtocolError)`, `Incompatible` or `Rejected`, after the reason. -/
  | turnedAway (why : Refusal)
  | welcome (version : Version)
  | options
  /-- What the session sends of its outbox. -/
  | queued (msg : ServerMsg)
deriving DecidableEq

/-- What a peer is told when the check that leads to `stage` turns it away. -/
def HandshakeStage.verdict : HandshakeStage → List Exchange
  | .refused why => [.turnedAway why]
  | _ => []

/-- The connection a step is about. -/
def RevokeLabel.sid? : RevokeLabel → Option Nat
  | .hello sid _ | .authorize sid | .note sid _ | .nameTaken sid | .sent sid | .abort sid
  | .register sid | .push sid | .leave sid | .unregister sid => some sid
  | _ => none

namespace RevokeRun

/-- What a step of connection `c` exchanges with its peer. -/
def exchangedBy (s : RevokeRun) (c : TlsConnection) : RevokeLabel → List Exchange
  | .hello _ msg => .heard msg :: (HandshakeStage.onHello c.layout msg).verdict
  | .authorize _ =>
    match c.stage with
    | .authorize screen version listed =>
      (HandshakeStage.onAuthorize s.trust c.cert screen version listed).verdict
    | _ => []
  | .note _ _ =>
    match c.stage with
    | .note name => [.turnedAway (.untrusted name)]
    | _ => []
  | .nameTaken _ =>
    match c.stage with
    | .authorized screen _ =>
      if s.hub.contains screen.name then [.turnedAway (.nameTaken screen.name)] else []
    | _ => []
  | .sent _ =>
    match c.stage with
    | .welcome _ version => [.welcome version]
    | .options _ _ => [.options]
    | _ => []
  | .push _ =>
    match c.stage with
    | .session name =>
      match s.hub.clients.get? name with
      | some ⟨msg :: _, _⟩ => [.queued msg]
      | _ => []
    | _ => []
  | _ => []

/-- What a step exchanges with the peer of connection `sid`. -/
def exchangedAt (s : RevokeRun) (l : RevokeLabel) (sid : Nat) : List Exchange :=
  if l.sid? = some sid then
    match s.conns.get? sid with
    | some c => s.exchangedBy c l
    | none => []
  else []

/-- What a run has exchanged with the peer of connection `sid`. -/
def exchanged (hist : List (RevokeRun × RevokeLabel)) (sid : Nat) : List Exchange :=
  hist.flatMap fun e => e.1.exchangedAt e.2 sid

end RevokeRun

/-! ## How connections move on

A connection goes from stage to stage. `Moves` has a rule for each, and a step of the server moves
one connection at most. -/

/-- The ways a connection moves on. -/
inductive Moves (s : RevokeRun) (sid : Nat) (c : TlsConnection) :
    RevokeLabel → HandshakeStage → Prop where
  | hello (msg : ClientMsg) (h : c.stage = .hello) :
      Moves s sid c (.hello sid msg) (.onHello c.layout msg)
  | authorize {screen : ScreenInfo} {version : Version} {listed : Bool}
      (h : c.stage = .authorize screen version listed) :
      Moves s sid c (.authorize sid) (.onAuthorize s.trust c.cert screen version listed)
  | note {name : String} (expired : Trust.Pending → Bool) (h : c.stage = .note name) :
      Moves s sid c (.note sid expired) (.refused (.untrusted name))
  | taken {screen : ScreenInfo} {version : Version} (h : c.stage = .authorized screen version)
      (hin : s.hub.contains screen.name = true) :
      Moves s sid c (.nameTaken sid) (.refused (.nameTaken screen.name))
  | free {screen : ScreenInfo} {version : Version} (h : c.stage = .authorized screen version)
      (hout : s.hub.contains screen.name = false) :
      Moves s sid c (.nameTaken sid) (.welcome screen version)
  | welcome {screen : ScreenInfo} {version : Version} (h : c.stage = .welcome screen version) :
      Moves s sid c (.sent sid) (.options screen version)
  | options {screen : ScreenInfo} {version : Version} (h : c.stage = .options screen version) :
      Moves s sid c (.sent sid) (.accepted screen version)
  | abort (h : c.stage.holds? = none) : Moves s sid c (.abort sid) .done
  | register {screen : ScreenInfo} {version : Version} (h : c.stage = .accepted screen version) :
      Moves s sid c (.register sid) (.session screen.name)
  | lost {screen : ScreenInfo} {version : Version} (h : c.stage = .accepted screen version) :
      Moves s sid c (.register sid) .done
  | close {name : String} (h : c.stage = .session name) : Moves s sid c (.push sid) (.closing name)
  | leave {name : String} (h : c.stage = .session name) : Moves s sid c (.leave sid) (.closing name)
  | unregister {name : String} (h : c.stage = .closing name) : Moves s sid c (.unregister sid) .done

/-- What a step does to the connections. -/
inductive ConnStep (s s' : RevokeRun) (l : RevokeLabel) : Prop where
  | same (h : s'.conns = s.conns) (hnext : s'.nextSid = s.nextSid)
      (hquiet : ∀ sid c, s.conns.get? sid = some c → s.exchangedAt l sid = []
        ∨ ∃ name, c.stage = .session name ∧ l = .push sid)
  | accept {c : TlsConnection} (hstage : c.stage = .hello)
      (hlayout : c.layout = s.hub.added.foldl (fun l name => (l.addScreen name).1) s.layout)
      (hnext : s'.nextSid = s.nextSid + 1) (hquiet : ∀ sid, s.exchangedAt l sid = [])
      (h : s'.conns = s.conns.put s.nextSid c)
  | move {sid : Nat} {c : TlsConnection} {stage : HandshakeStage}
      (hc : s.conns.get? sid = some c) (hmove : Moves s sid c l stage)
      (hnext : s'.nextSid = s.nextSid)
      (h : s'.conns = s.conns.put sid { c with stage := stage })

namespace ConnStep

variable {s s' : RevokeRun} {l : RevokeLabel}

/-- A step that is not about a connection. -/
theorem of_elsewhere (h : s'.conns = s.conns) (hnext : s'.nextSid = s.nextSid)
    (hquiet : ∀ sid, s.exchangedAt l sid = []) : ConnStep s s' l :=
  .same h hnext fun sid _ _ => .inl (hquiet sid)

/-- A session that sends from its outbox stays where it is. -/
theorem of_sending {sid : Nat} {c : TlsConnection} {name : String}
    (hc : s.conns.get? sid = some c) (hstage : c.stage = .session name)
    (h : s'.conns = s.conns) (hnext : s'.nextSid = s.nextSid) : ConnStep s s' (.push sid) := by
  refine .same h hnext fun sid' c' hc' => ?_
  unfold RevokeRun.exchangedAt
  split
  · next hsid =>
    obtain rfl : sid = sid' := Option.some.inj hsid
    rw [hc] at hc'
    obtain rfl := Option.some.inj hc'
    exact .inr ⟨name, hstage, rfl⟩
  · exact .inl rfl

end ConnStep

/-- **Every step is, for each connection, one of the moves of `ConnStep`.** -/
theorem connStep_of_step {s s' : RevokeRun} {l : RevokeLabel} (hs : s.step l = some s') :
    ConnStep s s' l := by
  cases l with
  | accept cert addr =>
    obtain rfl := Option.some.inj hs
    exact .accept rfl rfl rfl (fun _ => rfl) rfl
  | hello sid msg =>
    obtain ⟨c, hc, hstage, rfl⟩ := RevokeRun.step_hello hs
    exact .move hc (.hello msg hstage) rfl rfl
  | authorize sid =>
    obtain ⟨c, screen, version, listed, hc, hstage, rfl⟩ := RevokeRun.step_authorize hs
    exact .move hc (.authorize hstage) rfl rfl
  | note sid expired =>
    obtain ⟨c, name, fp, hc, hstage, -, rfl⟩ := RevokeRun.step_note hs
    exact .move hc (.note expired hstage) rfl rfl
  | nameTaken sid =>
    obtain ⟨c, screen, version, hc, hstage, ⟨hin, rfl⟩ | ⟨hout, rfl⟩⟩ := RevokeRun.step_nameTaken hs
    · exact .move hc (.taken hstage hin) rfl rfl
    · exact .move hc (.free hstage hout) rfl rfl
  | sent sid =>
    obtain ⟨c, screen, version, hc, ⟨hstage, rfl⟩ | ⟨hstage, rfl⟩⟩ := RevokeRun.step_sent hs
    · exact .move hc (.welcome hstage) rfl rfl
    · exact .move hc (.options hstage) rfl rfl
  | abort sid =>
    obtain ⟨c, hc, hfree, rfl⟩ := RevokeRun.step_abort hs
    exact .move hc (.abort hfree) rfl rfl
  | register sid =>
    obtain ⟨c, screen, version, hc, hstage, ⟨hub, -, rfl⟩ | rfl⟩ := RevokeRun.step_register hs
    · exact .move hc (.register hstage) rfl rfl
    · exact .move hc (.lost hstage) rfl rfl
  | push sid =>
    obtain ⟨c, name, msg, rest, monitors, hc, hstage, -, ⟨-, rfl⟩ | ⟨-, rfl⟩⟩ :=
      RevokeRun.step_push hs
    · exact .move hc (.close hstage) rfl rfl
    · exact .of_sending hc hstage rfl rfl
  | leave sid =>
    obtain ⟨c, name, hc, hstage, rfl⟩ := RevokeRun.step_leave hs
    exact .move hc (.leave hstage) rfl rfl
  | unregister sid =>
    obtain ⟨c, name, hc, hstage, rfl⟩ := RevokeRun.step_unregister hs
    exact .move hc (.unregister hstage) rfl rfl
  -- from here on the steps are of the trust and the desk, and no connection moves
  | revoke name =>
    obtain ⟨old, -, rfl⟩ | ⟨-, rfl⟩ := RevokeRun.step_revoke hs <;>
      exact .of_elsewhere rfl rfl fun _ => rfl
  | saveRevoked rid saved =>
    obtain ⟨r, -, -, ⟨-, rfl⟩ | ⟨-, rfl⟩⟩ := RevokeRun.step_saveRevoked hs <;>
      exact .of_elsewhere rfl rfl fun _ => rfl
  | close rid =>
    obtain ⟨r, -, -, rfl⟩ := RevokeRun.step_close hs
    exact .of_elsewhere rfl rfl fun _ => rfl
  | approve name fp =>
    obtain rfl | rfl := RevokeRun.step_approve hs <;> exact .of_elsewhere rfl rfl fun _ => rfl
  | trust aid =>
    obtain ⟨a, previous, -, -, ⟨-, rfl⟩ | rfl⟩ := RevokeRun.step_trust hs <;>
      exact .of_elsewhere rfl rfl fun _ => rfl
  | saveApproved aid saved =>
    obtain ⟨a, previous, -, -, ⟨-, rfl⟩ | ⟨-, rfl⟩⟩ := RevokeRun.step_saveApproved hs <;>
      exact .of_elsewhere rfl rfl fun _ => rfl
  | join aid =>
    obtain ⟨a, -, -, rfl⟩ := RevokeRun.step_join hs
    exact .of_elsewhere rfl rfl fun _ => rfl
  | add aid =>
    obtain ⟨a, -, -, rfl⟩ := RevokeRun.step_add hs
    exact .of_elsewhere rfl rfl fun _ => rfl
  | dismiss name fp =>
    obtain rfl := Option.some.inj hs
    exact .of_elsewhere rfl rfl fun _ => rfl
  | traffic name msg =>
    obtain rfl := Option.some.inj hs
    exact .of_elsewhere rfl rfl fun _ => rfl

/-! ## What a peer is told

What the exchange looks like at each stage: a hello, one verdict, and nothing after a refusal. -/

/-- A peer is spoken to only after its `Hello`; if it is turned away, that is all it is told. -/
structure Polite (ex : List Exchange) : Prop where
  first : ex = [] ∨ (∃ version screen rest, ex = .heard (.hello version screen) :: rest)
    ∨ ∃ msg, ex = [.heard msg, .turnedAway .expectedHello]
  away : ∀ why, .turnedAway why ∈ ex → ∃ msg, ex = [.heard msg, .turnedAway why]

/-- What was exchanged with the peer of a connection, by where the connection stands. -/
def HandshakeStage.Told (ex : List Exchange) : HandshakeStage → Prop
  | .hello => ex = []
  | .authorize _ _ _ | .note _ | .authorized _ _ | .welcome _ _ =>
    ∃ version screen, ex = [.heard (.hello version screen)]
  | .options _ _ => ∃ version screen v, ex = [.heard (.hello version screen), .welcome v]
  | .accepted _ _ | .session _ | .closing _ => ∃ version screen v rest,
      ex = .heard (.hello version screen) :: .welcome v :: rest ∧ ∀ why, .turnedAway why ∉ rest
  | .refused why => ∃ msg, ex = [.heard msg, .turnedAway why]
      ∧ (why = .expectedHello ∨ ∃ version screen, msg = .hello version screen)
  | .done => Polite ex

/-- A connection that has been told what its stage says has been told politely. -/
theorem HandshakeStage.Told.polite {stage : HandshakeStage} {ex : List Exchange}
    (h : stage.Told ex) : Polite ex := by
  have hspoken : ∀ rest version screen, ex = .heard (.hello version screen) :: rest →
      (∀ why, Exchange.turnedAway why ∉ rest) → Polite ex := by
    rintro rest version screen rfl hnone
    refine ⟨.inr (.inl ⟨_, _, _, rfl⟩), fun why hmem => ?_⟩
    rcases List.mem_cons.mp hmem with heq | hmem
    · cases heq
    · exact absurd hmem (hnone why)
  cases stage with
  | hello => exact ⟨.inl h, by rw [show ex = [] from h]; nofun⟩
  | authorize _ _ _ => obtain ⟨v, scr, rfl⟩ := h; exact hspoken [] v scr rfl (by simp)
  | note _ => obtain ⟨v, scr, rfl⟩ := h; exact hspoken [] v scr rfl (by simp)
  | authorized _ _ => obtain ⟨v, scr, rfl⟩ := h; exact hspoken [] v scr rfl (by simp)
  | welcome _ _ => obtain ⟨v, scr, rfl⟩ := h; exact hspoken [] v scr rfl (by simp)
  | options _ _ => obtain ⟨v, scr, w, rfl⟩ := h; exact hspoken [.welcome w] v scr rfl (by simp)
  | accepted _ _ =>
    obtain ⟨v, scr, w, rest, rfl, hnone⟩ := h
    exact hspoken (.welcome w :: rest) v scr rfl (by simpa using hnone)
  | session _ =>
    obtain ⟨v, scr, w, rest, rfl, hnone⟩ := h
    exact hspoken (.welcome w :: rest) v scr rfl (by simpa using hnone)
  | closing _ =>
    obtain ⟨v, scr, w, rest, rfl, hnone⟩ := h
    exact hspoken (.welcome w :: rest) v scr rfl (by simpa using hnone)
  | refused why =>
    obtain ⟨msg, rfl, hmsg⟩ := h
    constructor
    · rcases hmsg with rfl | ⟨v, scr, rfl⟩
      · exact .inr (.inr ⟨msg, rfl⟩)
      · exact .inr (.inl ⟨v, scr, _, rfl⟩)
    · intro why' hmem
      obtain rfl : why' = why := by simpa using hmem
      exact ⟨msg, rfl⟩
  | done => exact h

/-- What the first message leads to. -/
theorem told_onHello (layout : Layout) (msg : ClientMsg) :
    (HandshakeStage.onHello layout msg).Told
      (.heard msg :: (HandshakeStage.onHello layout msg).verdict) := by
  unfold HandshakeStage.onHello
  cases msg with
  | hello version screen =>
    dsimp only
    split
    · exact ⟨_, rfl, .inr ⟨version, screen, rfl⟩⟩
    · split
      · exact ⟨_, rfl, .inr ⟨version, screen, rfl⟩⟩
      · exact ⟨version, screen, rfl⟩
  | _ => exact ⟨_, rfl, .inl rfl⟩

/-- What the check of the certificate leads to. -/
theorem told_onAuthorize {ex : List Exchange} (trust : Trust) (cert : Option Fingerprint)
    (screen : ScreenInfo) (version : Version) (listed : Bool)
    (h : ∃ v scr, ex = [.heard (.hello v scr)]) :
    (HandshakeStage.onAuthorize trust cert screen version listed).Told
      (ex ++ (HandshakeStage.onAuthorize trust cert screen version listed).verdict) := by
  obtain ⟨v, scr, rfl⟩ := h
  unfold HandshakeStage.onAuthorize
  split
  · exact ⟨_, rfl, .inr ⟨v, scr, rfl⟩⟩
  · split
    · split
      · exact ⟨v, scr, rfl⟩
      · exact ⟨_, rfl, .inr ⟨v, scr, rfl⟩⟩
    · exact ⟨v, scr, rfl⟩

/-- A move of a connection is a step of that connection. -/
theorem sid_of_moves {s : RevokeRun} {sid : Nat} {c : TlsConnection} {l : RevokeLabel}
    {stage : HandshakeStage} (hm : Moves s sid c l stage) : l.sid? = some sid := by
  cases hm <;> rfl

/-- What is exchanged in a move is what the move says. -/
theorem exchangedAt_of_moves {s : RevokeRun} {sid : Nat} {c : TlsConnection} {l : RevokeLabel}
    {stage : HandshakeStage} (hc : s.conns.get? sid = some c) (hm : Moves s sid c l stage) :
    s.exchangedAt l sid = s.exchangedBy c l := by
  rw [RevokeRun.exchangedAt, if_pos (sid_of_moves hm), hc]

/-- A session that sends from its outbox turns nobody away. -/
theorem told_push {s : RevokeRun} {c : TlsConnection} {sid : Nat} {name : String}
    {ex : List Exchange} (hstage : c.stage = .session name)
    (h : (HandshakeStage.session name).Told ex) :
    (HandshakeStage.session name).Told (ex ++ s.exchangedBy c (.push sid)) := by
  obtain ⟨v, scr, w, rest, rfl, hnone⟩ := h
  refine ⟨v, scr, w, rest ++ s.exchangedBy c (.push sid), rfl, fun why hmem => ?_⟩
  rcases List.mem_append.mp hmem with hmem | hmem
  · exact hnone why hmem
  · simp only [RevokeRun.exchangedBy, hstage] at hmem
    split at hmem <;> simp at hmem

/-- **A connection that moves on has told its peer what goes with its new stage.** -/
theorem told_of_moves {s : RevokeRun} {sid : Nat} {c : TlsConnection} {l : RevokeLabel}
    {stage : HandshakeStage} {ex : List Exchange} (hc : s.conns.get? sid = some c)
    (h : c.stage.Told ex) (hm : Moves s sid c l stage) :
    stage.Told (ex ++ s.exchangedAt l sid) := by
  rw [exchangedAt_of_moves hc hm]
  -- every move adds what it says to what was said before
  cases hm with
  | hello msg hstage =>
    rw [hstage] at h
    rw [show ex = [] from h]
    exact told_onHello _ _
  | authorize hstage =>
    rw [hstage] at h
    simp only [RevokeRun.exchangedBy, hstage]
    exact told_onAuthorize _ _ _ _ _ h
  | note expired hstage =>
    rw [hstage] at h
    obtain ⟨v, scr, rfl⟩ := h
    simp only [RevokeRun.exchangedBy, hstage]
    exact ⟨_, rfl, .inr ⟨v, scr, rfl⟩⟩
  -- the name is taken, and the refusal is the next message
  | taken hstage hin =>
    rw [hstage] at h
    obtain ⟨v, scr, rfl⟩ := h
    simp only [RevokeRun.exchangedBy, hstage, hin, if_true]
    exact ⟨_, rfl, .inr ⟨v, scr, rfl⟩⟩
  -- the name is free, and nothing is said yet
  | free hstage hout =>
    rw [hstage] at h
    obtain ⟨v, scr, rfl⟩ := h
    simp only [RevokeRun.exchangedBy, hstage, hout, Bool.false_eq_true, if_false]
    exact ⟨v, scr, rfl⟩
  | welcome hstage =>
    rw [hstage] at h
    obtain ⟨v, scr, rfl⟩ := h
    simp only [RevokeRun.exchangedBy, hstage]
    exact ⟨v, scr, _, rfl⟩
  | options hstage =>
    rw [hstage] at h
    obtain ⟨v, scr, w, rfl⟩ := h
    simp only [RevokeRun.exchangedBy, hstage]
    exact ⟨v, scr, w, _, rfl, by simp⟩
  -- an end without a word leaves what was told
  | abort hfree =>
    simp only [RevokeRun.exchangedBy, List.append_nil]
    exact h.polite
  | register hstage =>
    rw [hstage] at h
    simp only [RevokeRun.exchangedBy, List.append_nil]
    exact h
  | lost hstage =>
    simp only [RevokeRun.exchangedBy, List.append_nil]
    exact h.polite
  -- the session's own close is the last message
  | close hstage =>
    rw [hstage] at h
    exact told_push hstage h
  | leave hstage =>
    rw [hstage] at h
    simp only [RevokeRun.exchangedBy, List.append_nil]
    exact h
  | unregister hstage =>
    simp only [RevokeRun.exchangedBy, List.append_nil]
    exact h.polite

/-! ## What a step does to the records of trust

Trust changes only by an approval that was saved or one taken back. -/

/-- Why the trust of a name changes, and to what. -/
inductive TrustChange (s : RevokeRun) : RevokeLabel → String → Option Fingerprint → Prop where
  | approved {aid : Nat} {a : Approval} (ha : s.approvals.get? aid = some a)
      (hpending : ∃ p ∈ s.trust.pending, p.name = a.name ∧ p.fingerprint = a.fp) :
      TrustChange s (.trust aid) a.name (some a.fp)
  | revoked (name : String) : TrustChange s (.revoke name) name none
  /-- A revocation that cannot be saved puts back what it took away. -/
  | unrevoked {rid : Nat} {r : Revocation} (hr : s.revocations.get? rid = some r)
      (hpc : r.pc = .toSave) : TrustChange s (.saveRevoked rid false) r.name (some r.old)
  /-- An approval that cannot be saved puts back what was trusted when it began. -/
  | unapproved {aid : Nat} {a : Approval} {previous : Option Fingerprint}
      (ha : s.approvals.get? aid = some a) (hpc : a.pc = .toSave previous) :
      TrustChange s (.saveApproved aid false) a.name previous

/-- What an approval still has of the trust as it was when it began. -/
def ApprovePc.Keeps (previous : Option Fingerprint) (pc : ApprovePc) : Prop :=
  pc = .toApprove previous ∨ pc = .toSave previous

structure RecordStep (s s' : RevokeRun) (l : RevokeLabel) : Prop where
  layout : s'.layout = s.layout
  added : ∀ n ∈ s.hub.added, n ∈ s'.hub.added
  revocations : ∀ rid r', s'.revocations.get? rid = some r' →
    (∃ r, s.revocations.get? rid = some r ∧ r.name = r'.name ∧ r.old = r'.old)
      ∨ l = .revoke r'.name ∧ s.trust.trusted.get? r'.name = some r'.old
  approvals : ∀ aid a', s'.approvals.get? aid = some a' →
    (∃ a, s.approvals.get? aid = some a ∧ a.name = a'.name ∧ a.fp = a'.fp
        ∧ ∀ previous, a'.pc.Keeps previous → a.pc.Keeps previous)
      ∨ l = .approve a'.name a'.fp ∧ a'.pc = .toApprove (s.trust.trusted.get? a'.name)
  trusted : ∀ n, s'.trust.trusted.get? n ≠ s.trust.trusted.get? n →
    TrustChange s l n (s'.trust.trusted.get? n)

/-- A send approves no machine. -/
theorem Hub.send_added {M : Type} (h : Hub M) (name : String) (msg : M) :
    (h.send name msg).1.added = h.added := by
  unfold Hub.send
  split <;> rfl

/-- A registration approves no machine. -/
theorem Hub.register_added {M : Type} {h h' : Hub M} {name : String} {monitors : List Rect}
    (hreg : h.register name monitors = some h') : h'.added = h.added := by
  unfold Hub.register Hub.insertClient at hreg
  by_cases hin : h.contains name = true
  · simp [hin] at hreg
  · simp only [hin, Bool.false_eq_true, if_false, Option.some.injEq] at hreg
    rw [← hreg]
    split <;> rfl

namespace RecordStep

variable {s s' : RevokeRun} {l : RevokeLabel}

/-- A revocation under way after a step that leaves it alone was under way before. -/
theorem still (s : RevokeRun) (rid : Nat) (r' : Revocation) (hr : s.revocations.get? rid = some r') :
    ∃ r, s.revocations.get? rid = some r ∧ r.name = r'.name ∧ r.old = r'.old := ⟨r', hr, rfl, rfl⟩

/-- A step that leaves the records alone. -/
theorem of_same (hlayout : s'.layout = s.layout) (hadded : s'.hub.added = s.hub.added)
    (hrev : s'.revocations = s.revocations) (happ : s'.approvals = s.approvals)
    (htrust : s'.trust.trusted = s.trust.trusted) : RecordStep s s' l where
  layout := hlayout
  added _ hn := hadded ▸ hn
  revocations _ r' hr := .inl ⟨r', hrev ▸ hr, rfl, rfl⟩
  approvals _ a' ha := .inl ⟨a', happ ▸ ha, rfl, rfl, fun _ h => h⟩
  trusted n hne := absurd (congrArg (·.get? n) htrust) hne

/-- A step of a revocation. -/
theorem of_revocation {rid : Nat} {r : Revocation} {pc : RevokePc}
    (hr : s.revocations.get? rid = some r) (hlayout : s'.layout = s.layout)
    (hadded : s'.hub.added = s.hub.added)
    (hrev : s'.revocations = s.revocations.put rid { r with pc := pc })
    (happ : s'.approvals = s.approvals)
    (htrust : ∀ n, s'.trust.trusted.get? n ≠ s.trust.trusted.get? n →
      TrustChange s l n (s'.trust.trusted.get? n)) : RecordStep s s' l where
  layout := hlayout
  added _ hn := hadded ▸ hn
  revocations rid' r' hr' := by
    rw [hrev, Dict.get?_put] at hr'
    split at hr'
    · next he =>
      obtain rfl := Option.some.inj hr'
      exact .inl ⟨r, he ▸ hr, rfl, rfl⟩
    · exact .inl ⟨r', hr', rfl, rfl⟩
  approvals _ a' ha := .inl ⟨a', happ ▸ ha, rfl, rfl, fun _ h => h⟩
  trusted := htrust

/-- A step of an approval. -/
theorem of_approval {aid : Nat} {a : Approval} {pc : ApprovePc}
    (ha : s.approvals.get? aid = some a) (hlayout : s'.layout = s.layout)
    (hadded : ∀ n ∈ s.hub.added, n ∈ s'.hub.added)
    (hrev : ∀ rid r', s'.revocations.get? rid = some r' →
      ∃ r, s.revocations.get? rid = some r ∧ r.name = r'.name ∧ r.old = r'.old)
    (happ : s'.approvals = s.approvals.put aid { a with pc := pc })
    (hkeeps : ∀ previous, pc.Keeps previous → a.pc.Keeps previous)
    (htrust : ∀ n, s'.trust.trusted.get? n ≠ s.trust.trusted.get? n →
      TrustChange s l n (s'.trust.trusted.get? n)) : RecordStep s s' l where
  layout := hlayout
  added := hadded
  revocations rid r' hr := .inl (hrev rid r' hr)
  approvals aid' a' ha' := by
    rw [happ, Dict.get?_put] at ha'
    split at ha'
    · next he =>
      obtain rfl := Option.some.inj ha'
      exact .inl ⟨a, he ▸ ha, rfl, rfl, hkeeps⟩
    · exact .inl ⟨a', ha', rfl, rfl, fun _ h => h⟩
  trusted := htrust

/-- The trust of a name is taken away, and the call noted that is to save that, or nothing was
trusted. -/
theorem of_revoke {name : String} (hs : s.step (.revoke name) = some s') :
    RecordStep s s' (.revoke name) := by
  have htrust : ∀ n, (s.trust.trusted.drop name).get? n ≠ s.trust.trusted.get? n →
      TrustChange s (.revoke name) n ((s.trust.trusted.drop name).get? n) := by
    intro n hne
    rw [Dict.get?_drop] at hne ⊢
    split at hne
    · next he => rw [he, if_pos rfl]; exact .revoked name
    · exact absurd rfl hne
  obtain ⟨old, hold, rfl⟩ | ⟨-, rfl⟩ := RevokeRun.step_revoke hs
  · refine ⟨rfl, fun _ hn => hn, fun rid r' hr => ?_, fun aid a' ha => ?_, htrust⟩
    · rw [Dict.get?_put] at hr
      split at hr
      · obtain rfl := Option.some.inj hr
        exact .inr ⟨rfl, hold⟩
      · exact .inl ⟨r', hr, rfl, rfl⟩
    · exact .inl ⟨a', ha, rfl, rfl, fun _ h => h⟩
  · exact ⟨rfl, fun _ hn => hn, fun rid r' hr => .inl ⟨r', hr, rfl, rfl⟩,
      fun aid a' ha => .inl ⟨a', ha, rfl, rfl, fun _ h => h⟩, htrust⟩

/-- What is put back is put back for one name. -/
theorem restored {trust : Trust} {name : String} {fp : Option Fingerprint}
    (htrust : trust = s.trust.restore name fp) (hchange : TrustChange s l name fp) (n : String)
    (hne : trust.trusted.get? n ≠ s.trust.trusted.get? n) :
    TrustChange s l n (trust.trusted.get? n) := by
  rw [htrust, Trust.restore_get?] at hne ⊢
  split at hne
  · next he => rw [he, if_pos rfl]; exact hchange
  · exact absurd rfl hne

/-- A revocation that is saved has changed the trusted map when it began; one that cannot be saved
restores it now. -/
theorem of_saveRevoked {rid : Nat} {saved : Bool} (hs : s.step (.saveRevoked rid saved) = some s') :
    RecordStep s s' (.saveRevoked rid saved) := by
  obtain ⟨r, hr, hpc, ⟨-, rfl⟩ | ⟨rfl, rfl⟩⟩ := RevokeRun.step_saveRevoked hs
  · exact of_revocation hr rfl rfl rfl rfl fun n hne => absurd rfl hne
  · exact of_revocation hr rfl rfl rfl rfl (restored rfl (.unrevoked hr hpc))

/-- A call of `approve` begins with what is trusted then. -/
theorem of_approve {name : String} {fp : Fingerprint} (hs : s.step (.approve name fp) = some s') :
    RecordStep s s' (.approve name fp) := by
  obtain rfl | rfl := RevokeRun.step_approve hs
  · exact of_same rfl rfl rfl rfl rfl
  · refine ⟨rfl, fun _ hn => hn, fun rid r' hr => .inl ⟨r', hr, rfl, rfl⟩, fun aid a' ha => ?_,
      fun n hne => absurd rfl hne⟩
    dsimp only at ha
    rw [Dict.get?_put] at ha
    split at ha
    · obtain rfl := Option.some.inj ha
      exact .inr ⟨rfl, rfl⟩
    · exact .inl ⟨a', ha, rfl, rfl, fun _ h => h⟩

/-- A certificate comes to be trusted by the approval of a request that showed it. -/
theorem of_trust {aid : Nat} (hs : s.step (.trust aid) = some s') :
    RecordStep s s' (.trust aid) := by
  obtain ⟨a, previous, ha, hpc, ⟨hpending, rfl⟩ | rfl⟩ := RevokeRun.step_trust hs
  · refine of_approval ha rfl (fun _ hn => hn) (fun rid r' hr => ?_) rfl ?_ fun n hne => ?_
    · dsimp only [RevokeRun.setApproval, RevokeRun.markReapproved] at hr
      rw [Dict.get?_mapVals] at hr
      obtain ⟨r, hold, rfl⟩ := Option.map_eq_some_iff.mp hr
      refine ⟨r, hold, ?_⟩
      split <;> exact ⟨rfl, rfl⟩
    · rintro p (hk | hk)
      · cases hk
      · cases hk
        exact .inl hpc
    · dsimp only at hne ⊢
      rw [Dict.get?_put] at hne ⊢
      split at hne
      · next he => rw [he, if_pos rfl]; exact .approved ha hpending
      · exact absurd rfl hne
  · refine of_approval ha rfl (fun _ hn => hn) (still s) rfl ?_ fun n hne => absurd rfl hne
    rintro p (hk | hk) <;> cases hk

/-- An approval that cannot be saved restores what was trusted when it began. -/
theorem of_saveApproved {aid : Nat} {saved : Bool}
    (hs : s.step (.saveApproved aid saved) = some s') :
    RecordStep s s' (.saveApproved aid saved) := by
  obtain ⟨a, previous, ha, hpc, ⟨-, rfl⟩ | ⟨rfl, rfl⟩⟩ := RevokeRun.step_saveApproved hs
  · refine of_approval ha rfl (fun _ hn => hn) (still s) rfl ?_ fun n hne => absurd rfl hne
    rintro p (hk | hk) <;> split at hk <;> cases hk
  · refine of_approval ha rfl (fun _ hn => hn) (still s) rfl ?_ (restored rfl (.unapproved ha hpc))
    rintro p (hk | hk) <;> cases hk

/-- A new machine joins the desk, and then the hub's list. -/
theorem of_join {aid : Nat} (hs : s.step (.join aid) = some s') : RecordStep s s' (.join aid) := by
  obtain ⟨a, ha, -, rfl⟩ := RevokeRun.step_join hs
  refine of_approval ha rfl (fun _ hn => hn) (still s) rfl ?_ fun n hne => absurd rfl hne
  rintro p (hk | hk) <;> cases hk

/-- A screen that is added was approved, and its approval saved. -/
theorem of_add {aid : Nat} (hs : s.step (.add aid) = some s') : RecordStep s s' (.add aid) := by
  obtain ⟨a, ha, -, rfl⟩ := RevokeRun.step_add hs
  refine of_approval ha rfl (fun n hn => ?_) (still s) rfl ?_ fun n hne => absurd rfl hne
  · dsimp only [Hub.addScreen]
    split
    · exact hn
    · exact List.mem_append_left _ hn
  · rintro p (hk | hk) <;> cases hk

end RecordStep

/-- **Every step is, for the record, one of those of `RecordStep`.** -/
theorem recordStep_of_step {s s' : RevokeRun} {l : RevokeLabel} (hs : s.step l = some s') :
    RecordStep s s' l := by
  -- only what touches the trusted screens, the connected clients or the calls on them is at stake
  cases l with
  | accept cert addr =>
    obtain rfl := Option.some.inj hs
    exact .of_same rfl rfl rfl rfl rfl
  | hello sid msg =>
    obtain ⟨c, -, -, rfl⟩ := RevokeRun.step_hello hs
    exact .of_same rfl rfl rfl rfl rfl
  | authorize sid =>
    obtain ⟨c, screen, version, listed, -, -, rfl⟩ := RevokeRun.step_authorize hs
    exact .of_same rfl rfl rfl rfl rfl
  | note sid expired =>
    obtain ⟨c, name, fp, -, -, -, rfl⟩ := RevokeRun.step_note hs
    exact .of_same rfl rfl rfl rfl (Trust.notePending_trusted _ _ _ _ _)
  | nameTaken sid =>
    obtain ⟨c, screen, version, -, -, ⟨-, rfl⟩ | ⟨-, rfl⟩⟩ := RevokeRun.step_nameTaken hs <;>
      exact .of_same rfl rfl rfl rfl rfl
  | sent sid =>
    obtain ⟨c, screen, version, -, ⟨-, rfl⟩ | ⟨-, rfl⟩⟩ := RevokeRun.step_sent hs <;>
      exact .of_same rfl rfl rfl rfl rfl
  | abort sid =>
    obtain ⟨c, -, -, rfl⟩ := RevokeRun.step_abort hs
    exact .of_same rfl rfl rfl rfl rfl
  | register sid =>
    obtain ⟨c, screen, version, -, -, ⟨hub, hreg, rfl⟩ | rfl⟩ := RevokeRun.step_register hs
    · exact .of_same rfl (Hub.register_added hreg) rfl rfl rfl
    · exact .of_same rfl rfl rfl rfl rfl
  | push sid =>
    obtain ⟨c, name, msg, rest, monitors, -, -, -, ⟨-, rfl⟩ | ⟨-, rfl⟩⟩ := RevokeRun.step_push hs <;>
      exact .of_same rfl rfl rfl rfl rfl
  | leave sid =>
    obtain ⟨c, name, -, -, rfl⟩ := RevokeRun.step_leave hs
    exact .of_same rfl rfl rfl rfl rfl
  | unregister sid =>
    obtain ⟨c, name, -, -, rfl⟩ := RevokeRun.step_unregister hs
    exact .of_same rfl rfl rfl rfl rfl
  -- the admin's steps, each by its own lemma
  | revoke name => exact .of_revoke hs
  | saveRevoked rid saved => exact .of_saveRevoked hs
  | close rid =>
    obtain ⟨r, hr, -, rfl⟩ := RevokeRun.step_close hs
    exact .of_revocation hr rfl (Hub.send_added _ _ _) rfl rfl fun n hne => absurd rfl hne
  | approve name fp => exact .of_approve hs
  | trust aid => exact .of_trust hs
  | saveApproved aid saved => exact .of_saveApproved hs
  | join aid => exact .of_join hs
  | add aid => exact .of_add hs
  | dismiss name fp =>
    obtain rfl := Option.some.inj hs
    exact .of_same rfl rfl rfl rfl rfl
  -- a message to a client connects nobody
  | traffic name msg =>
    obtain rfl := Option.some.inj hs
    exact .of_same rfl (Hub.send_added _ _ _) rfl rfl rfl

/-! ## Invariants of runs with their record

The record notes what the checks saw. Every name let in was trusted when it was looked at. -/

/-- Listed in the config, or approved since. -/
def RevokeRun.OnDesk (s : RevokeRun) (name : String) : Prop :=
  s.layout.hasScreen name = true ∨ name ∈ s.hub.added

/-- The certificate of connection `sid` was the one trusted for `name` when it was checked. -/
def CheckedAs (hist : List (RevokeRun × RevokeLabel)) (sid : Nat) (c : TlsConnection)
    (name : String) : Prop :=
  ∃ fp s₀, c.cert = some fp ∧ (s₀, .authorize sid) ∈ hist ∧ s₀.trust.trusted.get? name = some fp

/-- The names a connection has a claim on. -/
def HandshakeStage.claims? (stage : HandshakeStage) : Option String :=
  match stage.passed? with
  | some name => some name
  | none => stage.holds?

structure AdmissionInv (hist : List (RevokeRun × RevokeLabel)) (s : RevokeRun) : Prop where
  fresh : ∀ sid, s.nextSid ≤ sid → s.conns.get? sid = none
  silent : ∀ sid, s.conns.get? sid = none → RevokeRun.exchanged hist sid = []
  told : ∀ sid c, s.conns.get? sid = some c → c.stage.Told (RevokeRun.exchanged hist sid)
  layouts : ∀ sid c n, s.conns.get? sid = some c → c.layout.hasScreen n = true → s.OnDesk n
  checking : ∀ sid c screen version, s.conns.get? sid = some c →
    c.stage = .authorize screen version true → s.OnDesk screen.name
  admitted : ∀ sid c n, s.conns.get? sid = some c → c.stage.claims? = some n →
    s.OnDesk n ∧ CheckedAs hist sid c n
  revoked : ∀ rid r, s.revocations.get? rid = some r →
    ∃ s₀, (s₀, .revoke r.name) ∈ hist ∧ s₀.trust.trusted.get? r.name = some r.old
  approving : ∀ aid a previous, s.approvals.get? aid = some a → a.pc.Keeps previous →
    ∃ s₀, (s₀, .approve a.name a.fp) ∈ hist ∧ s₀.trust.trusted.get? a.name = previous

/-- What was exchanged in a longer run is what was before, and then in the last step. -/
theorem exchanged_append (hist : List (RevokeRun × RevokeLabel)) (s : RevokeRun)
    (l : RevokeLabel) (sid : Nat) :
    RevokeRun.exchanged (hist ++ [(s, l)]) sid
      = RevokeRun.exchanged hist sid ++ s.exchangedAt l sid := by
  unfold RevokeRun.exchanged
  rw [List.flatMap_append, List.flatMap_singleton]

/-- A peer hears nothing of what another connection does. -/
theorem exchangedAt_other {s : RevokeRun} {sid sid' : Nat} {c : TlsConnection} {l : RevokeLabel}
    {stage : HandshakeStage} (hm : Moves s sid c l stage) (hne : sid' ≠ sid) :
    s.exchangedAt l sid' = [] := by
  rw [RevokeRun.exchangedAt, sid_of_moves hm, if_neg]
  exact fun heq => hne (Option.some.inj heq).symm

/-- A screen on the desk after one was added was there, or is that one. -/
theorem hasScreen_addScreen {layout : Layout} {name n : String}
    (h : (layout.addScreen name).1.hasScreen n = true) : layout.hasScreen n = true ∨ n = name := by
  unfold Layout.addScreen at h
  split at h
  · exact .inl h
  · unfold Layout.hasScreen at h ⊢
    rw [List.any_append, Bool.or_eq_true] at h
    refine h.imp id fun hlast => ?_
    have heq : name = n := by simpa using hlast
    exact heq.symm

/-- What the layout of a new connection lists is on the desk. -/
theorem onDesk_of_added {s : RevokeRun} {n : String}
    (h : (s.hub.added.foldl (fun l name => (l.addScreen name).1) s.layout).hasScreen n = true) :
    s.OnDesk n := by
  have hgrow : ∀ (names : List String) (layout : Layout),
      (names.foldl (fun l name => (l.addScreen name).1) layout).hasScreen n = true →
      layout.hasScreen n = true ∨ n ∈ names := by
    intro names
    induction names with
    | nil => exact fun _ h => .inl h
    | cons name names ih =>
      intro layout h
      rcases ih _ h with hin | hin
      · rcases hasScreen_addScreen hin with hin | rfl
        · exact .inl hin
        · exact .inr List.mem_cons_self
      · exact .inr (List.mem_cons_of_mem _ hin)
  exact hgrow _ _ h

/-- What passed, and what is held, by where a connection moves. -/
theorem claims_of_moves {s : RevokeRun} {sid : Nat} {c : TlsConnection} {l : RevokeLabel}
    {stage : HandshakeStage} (hm : Moves s sid c l stage) {n : String}
    (hn : stage.claims? = some n) :
    c.stage.claims? = some n ∨ ∃ screen version fp, l = .authorize sid ∧ screen.name = n
      ∧ c.stage = .authorize screen version true ∧ c.cert = some fp
      ∧ s.trust.trusted.get? n = some fp := by
  cases hm with
  | hello msg hstage =>
    obtain ⟨hpassed, hholds⟩ := HandshakeStage.passed_onHello c.layout msg
    rw [HandshakeStage.claims?, hpassed, hholds] at hn
    cases hn
  | @authorize screen version listed hstage =>
    right
    have hpass : (HandshakeStage.onAuthorize s.trust c.cert screen version listed).passed?
        = some n := by
      unfold HandshakeStage.claims? at hn
      split at hn
      · next name heq => rw [heq]; exact hn
      · rw [HandshakeStage.holds_onAuthorize] at hn
        cases hn
    obtain ⟨fp, hcert, htrusted⟩ := HandshakeStage.passed_onAuthorize hpass
    -- the check passes only what is listed, under its own name
    unfold HandshakeStage.onAuthorize at hpass
    rw [hcert] at hpass
    dsimp only at hpass
    split at hpass
    · split at hpass
      · next hlisted =>
        subst hlisted
        exact ⟨screen, version, fp, rfl, Option.some.inj hpass, hstage, hcert, htrusted⟩
      · cases hpass
    · cases hpass
  | note expired hstage => cases hn
  | taken hstage hin => cases hn
  | free hstage hout => rw [hstage]; exact .inl hn
  | welcome hstage => rw [hstage]; exact .inl hn
  | options hstage => rw [hstage]; exact .inl hn
  | abort hfree => cases hn
  | register hstage => rw [hstage]; exact .inl hn
  | lost hstage => cases hn
  | close hstage => rw [hstage]; exact .inl hn
  | leave hstage => rw [hstage]; exact .inl hn
  | unregister hstage => cases hn

/-- Only `Hello` leads to the check of a certificate, of a name the layout lists or does not. -/
theorem authorize_of_moves {s : RevokeRun} {sid : Nat} {c : TlsConnection} {l : RevokeLabel}
    {stage : HandshakeStage} (hm : Moves s sid c l stage) {screen : ScreenInfo}
    {version : Version} (hn : stage = .authorize screen version true) :
    c.layout.hasScreen screen.name = true := by
  cases hm with
  | hello msg hstage =>
    cases msg with
    | hello v scr =>
      simp only [HandshakeStage.onHello] at hn
      split at hn
      · cases hn
      · split at hn
        · cases hn
        · obtain ⟨rfl, -, hlisted⟩ := HandshakeStage.authorize.inj hn
          exact hlisted
    | _ => cases hn
  | authorize hstage =>
    unfold HandshakeStage.onAuthorize at hn
    split at hn
    · cases hn
    · split at hn
      · split at hn <;> cases hn
      · cases hn
  | _ => cases hn

/-- No step takes a screen off the desk. -/
theorem RecordStep.onDesk {s s' : RevokeRun} {l : RevokeLabel} (hr : RecordStep s s' l)
    {n : String} (h : s.OnDesk n) : s'.OnDesk n := by
  unfold RevokeRun.OnDesk at h ⊢
  rw [hr.layout]
  exact h.imp id (hr.added n)

/-- A check that was passed stays passed in every longer run. -/
theorem CheckedAs.mono {hist : List (RevokeRun × RevokeLabel)} {sid : Nat}
    {c c' : TlsConnection} {n : String} (h : CheckedAs hist sid c n) (hcert : c'.cert = c.cert)
    (e : RevokeRun × RevokeLabel) : CheckedAs (hist ++ [e]) sid c' n := by
  obtain ⟨fp, s₀, hfp, hmem, htrusted⟩ := h
  exact ⟨fp, s₀, hcert.trans hfp, List.mem_append_left _ hmem, htrusted⟩

/-- Every revocation under way, the one just begun among them, stands in the record. -/
theorem AdmissionInv.revoked_step {hist : List (RevokeRun × RevokeLabel)} {s s' : RevokeRun}
    {l : RevokeLabel} (ih : AdmissionInv hist s) (hrec : RecordStep s s' l) :
    ∀ rid r, s'.revocations.get? rid = some r →
      ∃ s₀, (s₀, .revoke r.name) ∈ hist ++ [(s, l)]
        ∧ s₀.trust.trusted.get? r.name = some r.old := by
  intro rid r' hr'
  rcases hrec.revocations rid r' hr' with ⟨r, hr, hname, hcert⟩ | ⟨rfl, hat⟩
  · obtain ⟨s₀, hmem, hat⟩ := ih.revoked rid r hr
    exact ⟨s₀, hname ▸ List.mem_append_left _ hmem, by rw [← hname, ← hcert]; exact hat⟩
  · exact ⟨s, List.mem_append_right _ (List.mem_singleton_self _), hat⟩

/-- So does every approval that keeps what was trusted before it. -/
theorem AdmissionInv.approving_step {hist : List (RevokeRun × RevokeLabel)} {s s' : RevokeRun}
    {l : RevokeLabel} (ih : AdmissionInv hist s) (hrec : RecordStep s s' l) :
    ∀ aid a previous, s'.approvals.get? aid = some a → a.pc.Keeps previous →
      ∃ s₀, (s₀, .approve a.name a.fp) ∈ hist ++ [(s, l)]
        ∧ s₀.trust.trusted.get? a.name = previous := by
  intro aid a' previous ha' hkeeps
  rcases hrec.approvals aid a' ha' with ⟨a, ha, hname, hfp, hkept⟩ | ⟨rfl, hpc⟩
  · obtain ⟨s₀, hmem, hat⟩ := ih.approving aid a previous ha (hkept previous hkeeps)
    exact ⟨s₀, hname ▸ hfp ▸ List.mem_append_left _ hmem, by rw [← hname]; exact hat⟩
  · refine ⟨s, List.mem_append_right _ (List.mem_singleton_self _), ?_⟩
    unfold ApprovePc.Keeps at hkeeps
    rw [hpc] at hkeeps
    rcases hkeeps with hk | hk
    · exact ApprovePc.toApprove.inj hk
    · cases hk

/-- What a connection that does not move has been let on for still holds. -/
theorem AdmissionInv.stay {hist : List (RevokeRun × RevokeLabel)} {s s' : RevokeRun}
    {l : RevokeLabel} (ih : AdmissionInv hist s) (hrec : RecordStep s s' l) {sid : Nat}
    {c : TlsConnection} (hc : s.conns.get? sid = some c) :
    (∀ n, c.layout.hasScreen n = true → s'.OnDesk n)
      ∧ (∀ screen version, c.stage = .authorize screen version true → s'.OnDesk screen.name)
      ∧ ∀ n, c.stage.claims? = some n → s'.OnDesk n ∧ CheckedAs (hist ++ [(s, l)]) sid c n := by
  refine ⟨fun n hn => hrec.onDesk (ih.layouts sid c n hc hn),
    fun screen version hn => hrec.onDesk (ih.checking sid c screen version hc hn),
    fun n hn => ?_⟩
  obtain ⟨hdesk, hchecked⟩ := ih.admitted sid c n hc hn
  exact ⟨hrec.onDesk hdesk, hchecked.mono rfl _⟩

/-- **The invariant of admission holds in every run**: each connection's stage, what it was told,
and the checks that let it on. -/
theorem admissionInv_run {hist : List (RevokeRun × RevokeLabel)} {s : RevokeRun}
    (h : revokeRuns.Run hist s) : AdmissionInv hist s := by
  refine Lts.Run.invariant ?_ ?_ h
  · rintro s ⟨hhub, hconns, hrev, happ⟩
    constructor <;> simp [hconns, hrev, happ, RevokeRun.exchanged]
  intro hist s l s' _ ih hl
  have hrec := recordStep_of_step hl
  have hrevoked := ih.revoked_step hrec
  have happroving := ih.approving_step hrec
  cases connStep_of_step hl with
  | same hconns hnext hquiet =>
    refine ⟨?_, ?_, ?_, ?_, ?_, ?_, hrevoked, happroving⟩
    · intro sid hsid
      rw [hnext] at hsid
      rw [hconns]
      exact ih.fresh sid hsid
    · intro sid hnone
      rw [hconns] at hnone
      rw [exchanged_append, ih.silent sid hnone, RevokeRun.exchangedAt, hnone]
      split <;> rfl
    · intro sid c hc
      rw [hconns] at hc
      rw [exchanged_append]
      have htold := ih.told sid c hc
      rcases hquiet sid c hc with hnone | ⟨name, hstage, rfl⟩
      · rw [hnone, List.append_nil]; exact htold
      · rw [hstage] at htold ⊢
        have hat : s.exchangedAt (.push sid) sid = s.exchangedBy c (.push sid) := by
          simp only [RevokeRun.exchangedAt, RevokeLabel.sid?, if_true, hc]
        rw [hat]
        exact told_push hstage htold
    · exact fun sid c n hc => (ih.stay hrec (hconns ▸ hc)).1 n
    · exact fun sid c screen version hc => (ih.stay hrec (hconns ▸ hc)).2.1 screen version
    · exact fun sid c n hc => (ih.stay hrec (hconns ▸ hc)).2.2 n
  | @accept c hstage hlayout hnext hquiet hconns =>
    have hnew : ∀ {sid c'}, s'.conns.get? sid = some c' →
        sid = s.nextSid ∧ c' = c ∨ s.conns.get? sid = some c' := by
      intro sid c' hc'
      rw [hconns, Dict.get?_put] at hc'
      split at hc'
      · next he => exact .inl ⟨he, (Option.some.inj hc').symm⟩
      · exact .inr hc'
    refine ⟨?_, ?_, ?_, ?_, ?_, ?_, hrevoked, happroving⟩
    · intro sid hsid
      rw [hnext] at hsid
      rw [hconns, Dict.get?_put, if_neg (by omega)]
      exact ih.fresh sid (by omega)
    · intro sid hnone
      rw [hconns, Dict.get?_put] at hnone
      split at hnone
      · cases hnone
      · rw [exchanged_append, ih.silent sid hnone, hquiet]; rfl
    · intro sid c' hc'
      rw [exchanged_append, hquiet, List.append_nil]
      rcases hnew hc' with ⟨rfl, rfl⟩ | hc'
      · rw [hstage]
        exact ih.silent _ (ih.fresh _ (Nat.le_refl _))
      · exact ih.told sid c' hc'
    · intro sid c' n hc' hn
      rcases hnew hc' with ⟨rfl, rfl⟩ | hc'
      · rw [hlayout] at hn
        exact hrec.onDesk (onDesk_of_added hn)
      · exact (ih.stay hrec hc').1 n hn
    · intro sid c' screen version hc' hn
      rcases hnew hc' with ⟨rfl, rfl⟩ | hc'
      · rw [hstage] at hn; cases hn
      · exact (ih.stay hrec hc').2.1 screen version hn
    · intro sid c' n hc' hn
      rcases hnew hc' with ⟨rfl, rfl⟩ | hc'
      · rw [hstage] at hn; cases hn
      · exact (ih.stay hrec hc').2.2 n hn
  | @move sid₀ c stage hc hmove hnext hconns =>
    have hcases : ∀ {sid c'}, s'.conns.get? sid = some c' →
        sid = sid₀ ∧ c' = { c with stage := stage } ∨ sid ≠ sid₀ ∧ s.conns.get? sid = some c' := by
      intro sid c' hc'
      rw [hconns, Dict.get?_put] at hc'
      split at hc'
      · next he => exact .inl ⟨he, (Option.some.inj hc').symm⟩
      · next hne => exact .inr ⟨hne, hc'⟩
    refine ⟨?_, ?_, ?_, ?_, ?_, ?_, hrevoked, happroving⟩
    · intro sid hsid
      rw [hnext] at hsid
      have hnone := ih.fresh sid hsid
      rw [hconns, Dict.get?_put, if_neg]
      · exact hnone
      · rintro rfl
        rw [hc] at hnone
        cases hnone
    · intro sid hnone
      rw [hconns, Dict.get?_put] at hnone
      split at hnone
      · cases hnone
      · next hne => rw [exchanged_append, ih.silent sid hnone, exchangedAt_other hmove hne]; rfl
    · intro sid c' hc'
      rw [exchanged_append]
      rcases hcases hc' with ⟨rfl, rfl⟩ | ⟨hne, hc'⟩
      · exact told_of_moves hc (ih.told _ c hc) hmove
      · rw [exchangedAt_other hmove hne, List.append_nil]
        exact ih.told sid c' hc'
    · intro sid c' n hc' hn
      rcases hcases hc' with ⟨rfl, rfl⟩ | ⟨-, hc'⟩
      · exact (ih.stay hrec hc).1 n hn
      · exact (ih.stay hrec hc').1 n hn
    · intro sid c' screen version hc' hn
      rcases hcases hc' with ⟨rfl, rfl⟩ | ⟨-, hc'⟩
      · exact (ih.stay hrec hc).1 _ (authorize_of_moves hmove hn)
      · exact (ih.stay hrec hc').2.1 screen version hn
    · intro sid c' n hc' hn
      rcases hcases hc' with ⟨rfl, rfl⟩ | ⟨-, hc'⟩
      · rcases claims_of_moves hmove hn with hn | ⟨screen, version, fp, rfl, rfl, hstage, hcert, htrusted⟩
        · obtain ⟨hdesk, hchecked⟩ := (ih.stay hrec hc).2.2 n hn
          obtain ⟨fp, s₀, hfp, hmem, hat⟩ := hchecked
          exact ⟨hdesk, fp, s₀, hfp, hmem, hat⟩
        · exact ⟨(ih.stay hrec hc).2.1 screen version hstage, fp, s, hcert,
            List.mem_append_right _ (List.mem_singleton_self _), htrusted⟩
      · exact (ih.stay hrec hc').2.2 n hn

/-! ## Who is registered

A registration comes from one connection, which holds the name until it gives it up. -/

/-- A name is registered by the session that claims it, and nothing else takes it. -/
theorem registered_of_step {s s' : RevokeRun} {l : RevokeLabel} (hs : s.step l = some s')
    {n : String} (h : s'.hub.contains n = true) :
    s.hub.contains n = true
      ∨ ∃ sid c, s'.conns.get? sid = some c ∧ c.stage.holds? = some n := by
  -- most steps leave the list of clients as it is, or write over an entry that was there
  have hkeep : s'.hub.clients = s.hub.clients → s.hub.contains n = true := by
    intro hclients
    unfold Hub.contains at h ⊢
    rw [← hclients]; exact h
  have hput : ∀ {name : String} {e e' : Entry ServerMsg}, s.hub.clients.get? name = some e →
      s'.hub.clients = s.hub.clients.put name e' → s.hub.contains n = true := by
    intro name e e' he hclients
    unfold Hub.contains at h ⊢
    rw [hclients, Dict.get?_put] at h
    split at h
    · next heq => rw [heq, he]; rfl
    · exact h
  have hsent : ∀ {name : String} {msg : ServerMsg},
      s'.hub.clients = (s.hub.send name msg).1.clients → s.hub.contains n = true := by
    intro name msg hclients
    rw [← Hub.contains_send s.hub name n msg]
    unfold Hub.contains at h ⊢
    rw [← hclients]; exact h
  -- only a registration adds a name, and its session holds that name
  cases revokeStep_of_step hs with
  | idle _ _ hclients _ => exact .inl (hkeep hclients)
  | accept _ _ _ hclients _ => exact .inl (hkeep hclients)
  | move _ _ _ _ _ _ hclients _ => exact .inl (hkeep hclients)
  | @register _ _ sid c screen _ _ hc _ _ _ _ hclients hconns =>
    unfold Hub.contains at h ⊢
    rw [hclients, Dict.get?_put] at h
    split at h
    · next heq =>
      refine .inr ⟨sid, { c with stage := .session screen.name }, ?_, congrArg some heq.symm⟩
      rw [hconns, Dict.get?_put, if_pos rfl]
    · exact .inl h
  | push he _ _ _ hclients _ => exact .inl (hput he hclients)
  | pushClose _ _ he _ _ hclients _ => exact .inl (hput he hclients)
  -- a name taken off was another
  | unregister _ _ _ _ hclients _ =>
    unfold Hub.contains at h ⊢
    rw [hclients, Dict.get?_drop] at h
    split at h
    · cases h
    · exact .inl h
  | revoke _ _ hclients _ => exact .inl (hkeep hclients)
  | savedRevoked _ _ _ _ hclients _ => exact .inl (hkeep hclients)
  | unsavedRevoked _ _ _ hclients _ => exact .inl (hkeep hclients)
  | close _ _ _ _ hclients _ => exact .inl (hsent hclients)
  | reapproved _ _ hclients _ => exact .inl (hkeep hclients)
  | unsavedApproved _ _ _ _ hclients _ => exact .inl (hkeep hclients)
  | traffic _ _ hclients _ => exact .inl (hsent hclients)

/-- A session keeps its name until its registration is dropped. -/
theorem holds_of_step {s s' : RevokeRun} {l : RevokeLabel} (hs : s.step l = some s') {sid : Nat}
    {c : TlsConnection} {n : String} (hnew : s.conns.get? s.nextSid = none)
    (hc : s.conns.get? sid = some c) (hn : c.stage.holds? = some n) :
    (∃ c', s'.conns.get? sid = some c' ∧ c'.stage.holds? = some n)
      ∨ s'.hub.contains n = false := by
  -- a step concerns one connection, the one at hand or another
  cases connStep_of_step hs with
  | same hconns _ _ => exact .inl ⟨c, hconns ▸ hc, hn⟩
  | accept _ _ _ _ hconns =>
    refine .inl ⟨c, ?_, hn⟩
    rw [hconns, Dict.get?_put, if_neg]
    · exact hc
    · rintro rfl
      rw [hnew] at hc
      cases hc
  -- the connection at hand moves on: it keeps the name or gives it up
  | @move sid₀ c₀ stage hc₀ hmove _ hconns =>
    by_cases hsid : sid = sid₀
    · subst hsid
      rw [hc] at hc₀
      obtain rfl := Option.some.inj hc₀
      have hget : s'.conns.get? sid = some { c with stage := stage } := by
        rw [hconns, Dict.get?_put, if_pos rfl]
      -- most moves come before the name is held
      cases hmove with
      | hello _ hstage => rw [hstage] at hn; cases hn
      | authorize hstage => rw [hstage] at hn; cases hn
      | note _ hstage => rw [hstage] at hn; cases hn
      | taken hstage _ => rw [hstage] at hn; cases hn
      | free hstage _ => rw [hstage] at hn; cases hn
      | welcome hstage => rw [hstage] at hn; cases hn
      | options hstage => rw [hstage] at hn; cases hn
      | abort hfree => rw [hfree] at hn; cases hn
      | register hstage => rw [hstage] at hn; cases hn
      | lost hstage => rw [hstage] at hn; cases hn
      | close hstage => rw [hstage] at hn; exact .inl ⟨_, hget, hn⟩
      | leave hstage => rw [hstage] at hn; exact .inl ⟨_, hget, hn⟩
      -- giving the name up takes it off the list of clients
      | @unregister name hstage =>
        rw [hstage] at hn
        obtain rfl := Option.some.inj hn
        simp only [RevokeRun.step, hc, hstage, Option.some.injEq] at hs
        rw [← hs]
        refine .inr ?_
        simp [Hub.contains, Hub.unregister, Hub.removeClient, Hub.sayGone, Hub.emit]
    · exact .inl ⟨c, by rw [hconns, Dict.get?_put, if_neg hsid]; exact hc, hn⟩

/-- In every run a registered name is held by a connection. -/
theorem holder_run {hist : List (RevokeRun × RevokeLabel)} {s : RevokeRun}
    (h : revokeRuns.Run hist s) : ∀ n, s.hub.contains n = true →
      ∃ sid c, s.conns.get? sid = some c ∧ c.stage.holds? = some n := by
  refine Lts.Run.invariant (P := fun _ s => ∀ n, s.hub.contains n = true →
    ∃ sid c, s.conns.get? sid = some c ∧ c.stage.holds? = some n) ?_ ?_ h
  · rintro s ⟨hhub, -⟩ n hn
    rw [hhub] at hn
    cases hn
  · intro hist s l s' hrun ih hl n hn
    rcases registered_of_step hl hn with hwas | hnew
    · obtain ⟨sid, c, hc, hholds⟩ := ih n hwas
      have hfresh := (admissionInv_run hrun).fresh s.nextSid (Nat.le_refl _)
      rcases holds_of_step hl hfresh hc hholds with ⟨c', hc', hholds'⟩ | hgone
      · exact ⟨sid, c', hc', hholds'⟩
      · rw [hgone] at hn
        cases hn
    · exact hnew

/-! ## Admission

What a peer is told accounts for how it stands: refused in words, let in, or lost. The rest is the
look for the name, which is taken and used in two steps. -/

/-- The trust of a name changes by an approval of a request pending for that very certificate, by
a revocation, or by what undoes one of these. -/
inductive Accounted (hist : List (RevokeRun × RevokeLabel)) (s : RevokeRun) :
    RevokeLabel → String → Option Fingerprint → Prop where
  | approved {aid : Nat} {a : Approval} (ha : s.approvals.get? aid = some a)
      (hpending : ∃ p ∈ s.trust.pending, p.name = a.name ∧ p.fingerprint = a.fp) :
      Accounted hist s (.trust aid) a.name (some a.fp)
  | revoked (name : String) : Accounted hist s (.revoke name) name none
  /-- A revocation that cannot be saved puts back what it took away. -/
  | unrevoked {rid : Nat} {name : String} {old : Fingerprint} {s₀ : RevokeRun}
      (hat : (s₀, .revoke name) ∈ hist) (hold : s₀.trust.trusted.get? name = some old) :
      Accounted hist s (.saveRevoked rid false) name (some old)
  /-- An approval that cannot be saved puts back what was trusted when it began. -/
  | unapproved {aid : Nat} {name : String} {fp : Fingerprint} {s₀ : RevokeRun}
      (hat : (s₀, .approve name fp) ∈ hist) :
      Accounted hist s (.saveApproved aid false) name (s₀.trust.trusted.get? name)

/-- A check turned the peer away. -/
def Refused (_ : List (RevokeRun × RevokeLabel)) (_ : Nat) (c : TlsConnection) : Prop :=
  ∃ why, c.stage = .refused why

/-- A check turned the peer away, or every check let it through and its name was then taken. -/
def NotAdmitted (hist : List (RevokeRun × RevokeLabel)) (sid : Nat) (c : TlsConnection) : Prop :=
  Refused hist sid c ∨ ∃ s₀ c₀ screen version, (s₀, .register sid) ∈ hist
    ∧ s₀.conns.get? sid = some c₀ ∧ c₀.stage = .accepted screen version
    ∧ s₀.hub.contains screen.name = true

/-- What a run shows of admission: who is registered, why trust changes, and what is said to a
peer that `fails`. -/
structure Admission (fails : List (RevokeRun × RevokeLabel) → Nat → TlsConnection → Prop)
    (hist : List (RevokeRun × RevokeLabel)) (s : RevokeRun) : Prop where
  registered : ∀ n, s.hub.contains n = true → ∃ sid c, s.conns.get? sid = some c
    ∧ c.stage.holds? = some n ∧ s.OnDesk n ∧ CheckedAs hist sid c n
  trust : ∀ l s', s.step l = some s' → ∀ n,
    s'.trust.trusted.get? n ≠ s.trust.trusted.get? n →
      Accounted hist s l n (s'.trust.trusted.get? n)
  /-- Nothing is said before the first message; if that is no `Hello`, one thing is said. -/
  first : ∀ sid, RevokeRun.exchanged hist sid = []
    ∨ (∃ version screen rest, RevokeRun.exchanged hist sid = .heard (.hello version screen) :: rest)
    ∨ ∃ msg, RevokeRun.exchanged hist sid = [.heard msg, .turnedAway .expectedHello]
  /-- A peer that fails is told one thing. -/
  away : ∀ sid c, s.conns.get? sid = some c → fails hist sid c →
    ∃ msg why, RevokeRun.exchanged hist sid = [.heard msg, .turnedAway why]
  /-- Who was turned away is told nothing else ever. -/
  once : ∀ sid why, .turnedAway why ∈ RevokeRun.exchanged hist sid →
    ∃ msg, RevokeRun.exchanged hist sid = [.heard msg, .turnedAway why]

/-- Nothing is said to a peer before its Hello, and to one that is turned away nothing but one
rejection. -/
theorem AdmissionInv.polite {hist : List (RevokeRun × RevokeLabel)} {s : RevokeRun}
    (h : AdmissionInv hist s) (sid : Nat) : Polite (RevokeRun.exchanged hist sid) := by
  cases hc : s.conns.get? sid with
  | some c => exact (h.told sid c hc).polite
  | none =>
    rw [h.silent sid hc]
    exact ⟨.inl rfl, nofun⟩

/-- A name that is held is claimed. -/
theorem HandshakeStage.claims_of_holds {stage : HandshakeStage} {n : String}
    (h : stage.holds? = some n) : stage.claims? = some n := by
  cases stage with
  | session name => exact h
  | closing name => exact h
  | _ => cases h

/-- No connection that passed every check found its name claimed when it went to register it. -/
def NeverClaimed (hist : List (RevokeRun × RevokeLabel)) : Prop :=
  ∀ s₀ sid c₀ screen version, (s₀, .register sid) ∈ hist → s₀.conns.get? sid = some c₀ →
    c₀.stage = .accepted screen version → s₀.hub.contains screen.name = false

/-- Whatever the run, a peer that a check turned away is told one thing. -/
theorem AdmissionInv.refused {hist : List (RevokeRun × RevokeLabel)} {s : RevokeRun}
    (h : AdmissionInv hist s) {sid : Nat} {c : TlsConnection} (hc : s.conns.get? sid = some c)
    (hrefused : Refused hist sid c) :
    ∃ msg why, RevokeRun.exchanged hist sid = [.heard msg, .turnedAway why] := by
  obtain ⟨why, hstage⟩ := hrefused
  have htold := h.told sid c hc
  rw [hstage] at htold
  obtain ⟨msg, hex, -⟩ := htold
  exact ⟨msg, why, hex⟩

/-- A connection that went to register had been sent `Welcome`, and still has been. -/
theorem welcomed_of_register {hist : List (RevokeRun × RevokeLabel)} {s s₀ : RevokeRun}
    (h : revokeRuns.Run hist s) {sid : Nat} {c₀ : TlsConnection} {screen : ScreenInfo}
    {version : Version} (hat : (s₀, .register sid) ∈ hist) (hc₀ : s₀.conns.get? sid = some c₀)
    (hstage : c₀.stage = .accepted screen version) :
    ∃ v scr w rest,
      RevokeRun.exchanged hist sid = .heard (.hello v scr) :: .welcome w :: rest := by
  obtain ⟨earlier, later, rfl, hrun⟩ := h.before hat
  have htold := (admissionInv_run hrun).told sid c₀ hc₀
  rw [hstage] at htold
  obtain ⟨v, scr, w, rest, hex, -⟩ := htold
  refine ⟨v, scr, w, rest ++ RevokeRun.exchanged ((s₀, .register sid) :: later) sid, ?_⟩
  rw [RevokeRun.exchanged, List.flatMap_append]
  exact congrArg (· ++ _) hex

/-- **Who is admitted.** In every run names and trust are accounted for, and a peer that a check
turned away has been told one thing. That every peer which is not admitted has been told one thing
holds exactly as long as no connection found its name claimed after its last check. -/
theorem admission {hist : List (RevokeRun × RevokeLabel)} {s : RevokeRun}
    (h : revokeRuns.Run hist s) :
    Admission Refused hist s ∧ (Admission NotAdmitted hist s ↔ NeverClaimed hist) := by
  have hinv := admissionInv_run h
  have hregistered : ∀ n, s.hub.contains n = true → ∃ sid c, s.conns.get? sid = some c
      ∧ c.stage.holds? = some n ∧ s.OnDesk n ∧ CheckedAs hist sid c n := by
    intro n hn
    obtain ⟨sid, c, hc, hholds⟩ := holder_run h n hn
    obtain ⟨hdesk, hchecked⟩ := hinv.admitted sid c n hc (HandshakeStage.claims_of_holds hholds)
    exact ⟨sid, c, hc, hholds, hdesk, hchecked⟩
  have htrust : ∀ l s', s.step l = some s' → ∀ n,
      s'.trust.trusted.get? n ≠ s.trust.trusted.get? n →
        Accounted hist s l n (s'.trust.trusted.get? n) := by
    intro l s' hl n hne
    have hchange := (recordStep_of_step hl).trusted n hne
    generalize s'.trust.trusted.get? n = now at hchange
    cases hchange with
    | approved ha hpending => exact .approved ha hpending
    | revoked => exact .revoked n
    | unrevoked hr hpc =>
      obtain ⟨s₀, hmem, hat⟩ := hinv.revoked _ _ hr
      exact .unrevoked hmem hat
    | unapproved ha hpc =>
      obtain ⟨s₀, hmem, rfl⟩ := hinv.approving _ _ _ ha (.inr hpc)
      exact .unapproved hmem
  refine ⟨⟨hregistered, htrust, fun sid => (hinv.polite sid).first, fun sid c => hinv.refused,
    fun sid => (hinv.polite sid).away⟩, fun hall => ?_, fun hfree => ⟨hregistered, htrust,
    fun sid => (hinv.polite sid).first, fun sid c hc hfails => ?_, fun sid => (hinv.polite sid).away⟩⟩
  · intro s₀ sid c₀ screen version hat hc₀ hstage
    by_contra htaken
    obtain ⟨v, scr, w, rest, hex⟩ := welcomed_of_register h hat hc₀ hstage
    -- the connection is still there: it has said something
    cases hc : s.conns.get? sid with
    | none =>
      rw [hinv.silent sid hc] at hex
      cases hex
    | some c =>
      obtain ⟨msg, why, haway⟩ := hall.away sid c hc
        (.inr ⟨s₀, c₀, screen, version, hat, hc₀, hstage, by simpa using htaken⟩)
      rw [haway] at hex
      cases hex
  · rcases hfails with hrefused | ⟨s₀, c₀, screen, version, hat, hc₀, hstage, htaken⟩
    · exact hinv.refused hc hrefused
    · rw [hfree s₀ sid c₀ screen version hat hc₀ hstage] at htaken
      cases htaken

/-- "a" is admitted, and a stranger is turned away under its name. -/
theorem admission_running :
    ∃ hist s, revokeRuns.Run hist s ∧ s.hub.contains "a" = true
      ∧ RevokeRun.exchanged hist 1 = [.heard helloOfA, .turnedAway (.untrusted "a")]
      ∧ Admission Refused hist s ∧ (Admission NotAdmitted hist s ↔ NeverClaimed hist) := by
  let labels : List RevokeLabel :=
    [.accept (some ⟨7⟩) "", .hello 0 helloOfA, .authorize 0, .nameTaken 0, .sent 0, .sent 0,
      .register 0, .accept (some ⟨8⟩) "", .hello 1 helloOfA, .authorize 1, .note 1 fun _ => false]
  have hend : (revokeRuns.record [] trustingRun labels).map (fun r => (r.2.hub.contains "a",
      decide (RevokeRun.exchanged r.1 1 = [.heard helloOfA, .turnedAway (.untrusted "a")])))
      = some (true, true) := by decide
  obtain ⟨⟨hist, s⟩, hrun, hstate⟩ := Option.map_eq_some_iff.mp hend
  obtain ⟨hin, hex⟩ := Prod.mk.inj hstate
  have hrun : revokeRuns.Run hist s := Lts.run_of_record (.init ⟨rfl, rfl, rfl, rfl⟩) hrun
  exact ⟨hist, s, hrun, hin, of_decide_eq_true hex, admission hrun⟩

/-- Two connections of one machine pass every check before either claims the name. The second finds
it claimed; it was sent `Welcome` and `SetOptions`, and is not told. -/
theorem register_race_unrejected :
    ¬ ∀ hist s, revokeRuns.Run hist s → Admission NotAdmitted hist s := by
  intro hall
  -- both are looked up before either registers; then the first one does
  let labels : List RevokeLabel :=
    [.accept (some ⟨7⟩) "", .hello 0 helloOfA, .authorize 0, .nameTaken 0,
      .accept (some ⟨7⟩) "", .hello 1 helloOfA, .authorize 1, .nameTaken 1,
      .sent 0, .sent 0, .sent 1, .sent 1, .register 0]
  have hend : (revokeRuns.record [] trustingRun labels).bind (fun r =>
      (r.2.step (.register 1)).map fun s' =>
        decide ((r.2.conns.get? 1).map (·.stage)
            = some (.accepted ⟨"a", ⟨0, 0, 1920, 1080⟩, [], ⟨0, 0⟩⟩ ⟨4, 0⟩)
          ∧ r.2.hub.contains "a" = true ∧ (s'.conns.get? 1).isSome = true
          ∧ RevokeRun.exchanged (r.1 ++ [(r.2, .register 1)]) 1
            = [.heard helloOfA, .welcome ⟨4, 0⟩, .options])) = some true := by decide
  obtain ⟨⟨hist, s⟩, hrecord, hnext⟩ := Option.bind_eq_some_iff.mp hend
  obtain ⟨s', hs', hstate⟩ := Option.map_eq_some_iff.mp hnext
  obtain ⟨hstage, htaken, hin, hex⟩ := of_decide_eq_true hstate
  have hrun : revokeRuns.Run hist s := Lts.run_of_record (.init ⟨rfl, rfl, rfl, rfl⟩) hrecord
  obtain ⟨c, hc, hstage⟩ := Option.map_eq_some_iff.mp hstage
  obtain ⟨c', hc'⟩ := Option.isSome_iff_exists.mp hin
  -- the second is ended there, with two messages and no refusal
  have hfails : NotAdmitted (hist ++ [(s, .register 1)]) 1 c' :=
    .inr ⟨s, c, _, _, List.mem_append_right _ (List.mem_singleton_self _), hc, hstage, htaken⟩
  have hafter : revokeRuns.Run (hist ++ [(s, .register 1)]) s' := .step hrun hs'
  obtain ⟨msg, why, htold⟩ := (hall _ s' hafter).away 1 c' hc' hfails
  rw [hex] at htold
  cases htold

end GeserDesk
