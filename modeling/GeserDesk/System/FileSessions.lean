import GeserDesk.Client.Files
import GeserDesk.System.FileConservation

/-!
# Connections and the file router

The file router of `FileRuns` with the connections that use it. A connection registers its name,
its client asks for reads through a `FileChannel` of its own, the server's session passes them
on and passes the client's outbox down; at its end it runs `on_disconnected`, then drops its
registration, and the client may connect again under the same name.

* **`files_reachable`**: the file router's part of a run is a run of `FileRuns`, so what holds
  there holds here.
* **`SessionWf`**: registrations and connections match.
-/

namespace GeserDesk

/-- Where the server's end of a connection stands. -/
inductive Stage where
  /-- In its session loop. -/
  | serving
  /-- `on_disconnected` was called, as clean-up `cid`. -/
  | cleaning (cid : Nat)
  /-- The registration is dropped. -/
  | gone
deriving DecidableEq

structure Connection where
  name : String
  stage : Stage := .serving
  channel : FileChannel ReadArgs := {}
  /-- What the client sent and the session has not handled. -/
  uplink : List ClientMsg := []
  /-- What the session sent and the client has not handled. -/
  downlink : List Tagged := []

/-- A read of a client that was given an answer. -/
structure Resolved where
  sid : Nat
  req : Nat
  args : ReadArgs
  result : FileReadResult
  answers : Option Nat
deriving DecidableEq

structure FileSessions where
  files : FileRun := {}
  conns : Dict Nat Connection := ∅
  nextSid : Nat := 0
  /-- Which connection made a request (bookkeeping only). -/
  asker : Dict Nat Nat := ∅
  /-- The reads of clients that were answered (bookkeeping only). -/
  resolved : List Resolved := []

inductive SessionLabel where
  /-- A step of the file router that belongs to no connection, or to an owner's reply. -/
  | files (l : FileLabel)
  | connect (name : String) (monitors : List Rect)
  /-- A pull of the client asks for a chunk. -/
  | read (sid : Nat) (args : ReadArgs)
  | forget (sid : Nat) (req : Nat)
  /-- The session handles the next message of its client. -/
  | receive (sid : Nat)
  /-- The session sends the next message of the outbox. -/
  | push (sid : Nat)
  /-- The client handles the next message of the server. -/
  | hear (sid : Nat)
  /-- The session's loop has ended: `on_disconnected`. -/
  | cleanup (sid : Nat)
  | unregister (sid : Nat)

/-- The steps of the file router that connections do not take themselves. -/
def FileLabel.isFree : FileLabel → Bool
  | .ask (.toClient _ _) _ | .register _ _ | .unregister _ | .dropOwner _ | .consume _ => false
  | _ => true

/-- The read a client's message asks for, with its number. -/
def ClientMsg.fileRead? : ClientMsg → Option (Nat × ReadArgs)
  | .fileRead seq req index offset len => some (req, ⟨seq, index, offset, len⟩)
  | _ => none

namespace FileSessions

def setConn (s : FileSessions) (sid : Nat) (c : Connection) : FileSessions :=
  { s with conns := s.conns.put sid c }

def step (s : FileSessions) : SessionLabel → Option FileSessions
  | .files l =>
    if l.isFree then
      match s.files.step l with
      | some files => some { s with files := files }
      | none => none
    else none
  | .connect name monitors =>
    match s.files.step (.register name monitors) with
    | some files => some { s with
        files := files
        conns := s.conns.put s.nextSid { name := name }
        nextSid := s.nextSid + 1 }
    | none => none
  | .read sid args =>
    match s.conns.get? sid with
    | some c =>
      let (channel, msg) := c.channel.read args args
      some (s.setConn sid { c with channel := channel, uplink := c.uplink ++ [msg] })
    | none => none
  | .forget sid req =>
    match s.conns.get? sid with
    | some c => some (s.setConn sid { c with channel := c.channel.forget req })
    | none => none
  | .receive sid =>
    match s.conns.get? sid with
    | some { name, stage := .serving, channel, uplink := msg :: uplink, downlink } =>
      match msg.fileRead? with
      | none => some (s.setConn sid { name, channel, uplink, downlink })
      | some (req, args) =>
        match s.files.step (.ask (.toClient name req) args) with
        | some files => some { s.setConn sid { name, channel, uplink, downlink } with
            files := files
            asker := s.asker.put s.files.nextRid sid }
        | none => none
    | _ => none
  | .push sid =>
    match s.conns.get? sid with
    | some { name, stage := .serving, channel, uplink, downlink } =>
      match s.files.consume name with
      | some (files, m) =>
        some { s.setConn sid { name, channel, uplink, downlink := downlink ++ [m] } with
          files := files }
      | none => none
    | _ => none
  | .hear sid =>
    match s.conns.get? sid with
    | some { name, stage, channel, uplink, downlink := m :: downlink } =>
      match m.msg.fileReply? with
      | none => some (s.setConn sid { name, stage, channel, uplink, downlink })
      | some (req, result) =>
        let (channel, woken) := channel.reply req
        let s := s.setConn sid { name, stage, channel, uplink, downlink }
        match woken with
        | none => some s
        | some args => some { s with
            resolved := s.resolved ++ [⟨sid, req, args, result, m.answers⟩] }
    | _ => none
  | .cleanup sid =>
    match s.conns.get? sid with
    | some { name, stage := .serving, channel, uplink, downlink } =>
      match s.files.step (.dropOwner name) with
      | some files =>
        some { s.setConn sid
          { name, stage := .cleaning s.files.nextCleanup, channel, uplink, downlink } with
          files := files }
      | none => none
    | _ => none
  | .unregister sid =>
    match s.conns.get? sid with
    | some { name, stage := .cleaning cid, channel, uplink, downlink } =>
      match s.files.cleanups.get? cid, s.files.step (.unregister name) with
      | some (.toAnswer []), some files =>
        some { s.setConn sid { name, stage := .gone, channel, uplink, downlink } with
          files := files }
      | _, _ => none
    | _ => none

end FileSessions

/-- The file router and its connections, as a transition system. -/
def fileSessions : Lts FileSessions SessionLabel where
  init s := s = {}
  step := FileSessions.step

/-! ## What one step can do

A rule for each step of the connections, over those of the file router. -/

/-- Every outcome of a step of the connections. -/
inductive SessionStep (s : FileSessions) : SessionLabel → FileSessions → Prop where
  | files {l : FileLabel} {files : FileRun} (hfree : l.isFree = true)
      (hf : s.files.step l = some files) :
      SessionStep s (.files l) { s with files := files }
  | connect {name : String} {monitors : List Rect} {files : FileRun}
      (hf : s.files.step (.register name monitors) = some files) :
      SessionStep s (.connect name monitors) { s with
        files := files
        conns := s.conns.put s.nextSid { name := name }
        nextSid := s.nextSid + 1 }
  | read {sid : Nat} {args : ReadArgs} {c : Connection} (hc : s.conns.get? sid = some c) :
      SessionStep s (.read sid args) (s.setConn sid { c with
        channel := (c.channel.read args args).1
        uplink := c.uplink ++ [(c.channel.read args args).2] })
  | forget {sid req : Nat} {c : Connection} (hc : s.conns.get? sid = some c) :
      SessionStep s (.forget sid req) (s.setConn sid { c with channel := c.channel.forget req })
  | ignore {sid : Nat} {c : Connection} {msg : ClientMsg} {uplink : List ClientMsg}
      (hc : s.conns.get? sid = some c) (hstage : c.stage = .serving)
      (hup : c.uplink = msg :: uplink) (hmsg : msg.fileRead? = none) :
      SessionStep s (.receive sid) (s.setConn sid { c with uplink := uplink })
  | receive {sid req : Nat} {c : Connection} {msg : ClientMsg} {uplink : List ClientMsg}
      {args : ReadArgs} {files : FileRun}
      (hc : s.conns.get? sid = some c) (hstage : c.stage = .serving)
      (hup : c.uplink = msg :: uplink) (hmsg : msg.fileRead? = some (req, args))
      (hf : s.files.step (.ask (.toClient c.name req) args) = some files) :
      SessionStep s (.receive sid) { s.setConn sid { c with uplink := uplink } with
        files := files
        asker := s.asker.put s.files.nextRid sid }
  | push {sid : Nat} {c : Connection} {files : FileRun} {m : Tagged}
      (hc : s.conns.get? sid = some c) (hstage : c.stage = .serving)
      (hf : s.files.consume c.name = some (files, m)) :
      SessionStep s (.push sid)
        { s.setConn sid { c with downlink := c.downlink ++ [m] } with files := files }
  | hear {sid : Nat} {c : Connection} {m : Tagged} {downlink : List Tagged}
      (hc : s.conns.get? sid = some c) (hdown : c.downlink = m :: downlink)
      (hmsg : m.msg.fileReply? = none) :
      SessionStep s (.hear sid) (s.setConn sid { c with downlink := downlink })
  | unheard {sid req : Nat} {c : Connection} {m : Tagged} {downlink : List Tagged}
      {result : FileReadResult}
      (hc : s.conns.get? sid = some c) (hdown : c.downlink = m :: downlink)
      (hmsg : m.msg.fileReply? = some (req, result)) (hwaits : c.channel.pending.get? req = none) :
      SessionStep s (.hear sid)
        (s.setConn sid { c with downlink := downlink, channel := (c.channel.reply req).1 })
  | resolve {sid req : Nat} {c : Connection} {m : Tagged} {downlink : List Tagged}
      {result : FileReadResult} {args : ReadArgs}
      (hc : s.conns.get? sid = some c) (hdown : c.downlink = m :: downlink)
      (hmsg : m.msg.fileReply? = some (req, result))
      (hwaits : c.channel.pending.get? req = some args) :
      SessionStep s (.hear sid)
        { s.setConn sid { c with downlink := downlink, channel := (c.channel.reply req).1 } with
          resolved := s.resolved ++ [⟨sid, req, args, result, m.answers⟩] }
  | cleanup {sid : Nat} {c : Connection} {files : FileRun}
      (hc : s.conns.get? sid = some c) (hstage : c.stage = .serving)
      (hf : s.files.step (.dropOwner c.name) = some files) :
      SessionStep s (.cleanup sid)
        { s.setConn sid { c with stage := .cleaning s.files.nextCleanup } with files := files }
  | unregister {sid cid : Nat} {c : Connection} {files : FileRun}
      (hc : s.conns.get? sid = some c) (hstage : c.stage = .cleaning cid)
      (hclean : s.files.cleanups.get? cid = some (.toAnswer []))
      (hf : s.files.step (.unregister c.name) = some files) :
      SessionStep s (.unregister sid)
        { s.setConn sid { c with stage := .gone } with files := files }

/-- **Every step is one of those of `SessionStep`**, taken apart once and for all. -/
theorem sessionStep_of_step {s s' : FileSessions} {l : SessionLabel} (hs : s.step l = some s') :
    SessionStep s l s' := by
  -- one rule of `SessionStep` for each branch of the step
  cases l with
  | files l =>
    simp only [FileSessions.step] at hs
    split at hs
    · next hfree =>
      split at hs
      · next files hf => exact Option.some.inj hs ▸ .files hfree hf
      · cases hs
    · cases hs
  | connect name monitors =>
    simp only [FileSessions.step] at hs
    split at hs
    · next files hf => exact Option.some.inj hs ▸ .connect hf
    · cases hs
  | read sid args =>
    simp only [FileSessions.step] at hs
    split at hs
    · next c hc => exact Option.some.inj hs ▸ .read hc
    · cases hs
  | forget sid req =>
    simp only [FileSessions.step] at hs
    split at hs
    · next c hc => exact Option.some.inj hs ▸ .forget hc
    · cases hs
  | receive sid =>
    simp only [FileSessions.step] at hs
    split at hs
    case h_2 => cases hs
    next hc =>
    split at hs
    · next hmsg => exact Option.some.inj hs ▸ .ignore hc rfl rfl hmsg
    · next hmsg =>
      split at hs
      · next files hf => exact Option.some.inj hs ▸ .receive hc rfl rfl hmsg hf
      · cases hs
  | push sid =>
    simp only [FileSessions.step] at hs
    split at hs
    case h_2 => cases hs
    next hc =>
    split at hs
    · next hf => exact Option.some.inj hs ▸ .push hc rfl hf
    · cases hs
  | hear sid =>
    simp only [FileSessions.step] at hs
    split at hs
    case h_2 => cases hs
    next hc =>
    split at hs
    · next hmsg => exact Option.some.inj hs ▸ .hear hc rfl hmsg
    · next hmsg =>
      split at hs
      · next hwaits => exact Option.some.inj hs ▸ .unheard hc rfl hmsg hwaits
      · next hwaits => exact Option.some.inj hs ▸ .resolve hc rfl hmsg hwaits
  | cleanup sid =>
    simp only [FileSessions.step] at hs
    split at hs
    case h_2 => cases hs
    next hc =>
    split at hs
    · next hf => exact Option.some.inj hs ▸ .cleanup hc rfl hf
    · cases hs
  | unregister sid =>
    simp only [FileSessions.step] at hs
    split at hs
    case h_2 => cases hs
    next hc =>
    split at hs
    · next hclean hf => exact Option.some.inj hs ▸ .unregister hc rfl hclean hf
    · cases hs

/-! ## The file router's part of a run -/

/-- A step of the connections is a step of the file router or leaves it alone. -/
theorem SessionStep.files_step {s s' : FileSessions} {l : SessionLabel} (h : SessionStep s l s') :
    s'.files = s.files ∨ ∃ fl, s.files.step fl = some s'.files := by
  cases h with
  | files hfree hf => exact .inr ⟨_, hf⟩
  | connect hf => exact .inr ⟨_, hf⟩
  | receive hc hstage hup hmsg hf => exact .inr ⟨_, hf⟩
  | @push sid c files m hc hstage hf =>
    exact .inr ⟨.consume c.name, by show (s.files.consume c.name).map _ = _; rw [hf]; rfl⟩
  | cleanup hc hstage hf => exact .inr ⟨_, hf⟩
  | unregister hc hstage hclean hf => exact .inr ⟨_, hf⟩
  | read hc => exact .inl rfl
  | forget hc => exact .inl rfl
  | ignore hc hstage hup hmsg => exact .inl rfl
  | hear hc hdown hmsg => exact .inl rfl
  | unheard hc hdown hmsg hwaits => exact .inl rfl
  | resolve hc hdown hmsg hwaits => exact .inl rfl

/-- The requests go through a run of their own. -/
theorem files_reachable {ok : FileSessions → SessionLabel → Prop} {s : FileSessions}
    (hs : fileSessions.Reach ok s) : fileRuns.Reachable s.files := by
  refine Lts.Reach.invariant (P := fun s => fileRuns.Reachable s.files) ?_ ?_ hs
  · rintro _ rfl
    exact .init rfl
  · intro s l s' _ ih _ hl
    rcases (sessionStep_of_step hl).files_step with hsame | ⟨fl, hf⟩
    · rw [hsame]; exact ih
    · exact .step ih trivial hf

/-! ## Registrations and connections

A connection that holds a name is the one registered under it. -/

/-- A delivery registers nobody and unregisters nobody. -/
theorem FileRun.deliver_contains {s s' : FileRun} {rid : Nat} (h : s.deliver rid = some s')
    (n : String) : s'.hub.contains n = s.hub.contains n := by
  obtain ⟨-, -, -, -, -, -, waiting, args, result, -, hhub⟩ := FileRun.deliver_frame h
  rw [hhub]
  cases waiting with
  | toLocal tx => rfl
  | toClient to_ req => exact Hub.contains_send _ _ _ _

/-- A request taken back registers nobody and unregisters nobody. -/
theorem FileRun.refuse_contains (s : FileRun) (req : Nat) (n : String) :
    (s.refuse req).hub.contains n = s.hub.contains n := by
  unfold FileRun.refuse
  obtain ⟨-, hhub, -⟩ := s.resolve_frame req fun _ => .err .notFound
  generalize s.resolve req (fun _ => .err .notFound) = out at *
  obtain ⟨s₁, found⟩ := out
  dsimp only at *
  cases found with
  | none => rw [hhub]
  | some rid =>
    dsimp only
    cases hd : s₁.deliver rid with
    | none => rw [Option.getD_none, hhub]
    | some s₂ => rw [Option.getD_some, FileRun.deliver_contains hd, hhub]

/-- Only `register` and the dropped registration change who is registered. -/
theorem FileStep.contains {s s' : FileRun} {l : FileLabel} (h : FileStep s l s')
    (hreg : ∀ name monitors, l ≠ .register name monitors) (hunreg : ∀ name, l ≠ .unregister name)
    (n : String) : s'.hub.contains n = s.hub.contains n := by
  cases h with
  | register hfree => exact absurd rfl (hreg _ _)
  | unregister => exact absurd rfl (hunreg _)
  | sent hsend => exact Hub.contains_send _ _ _ _
  | traffic hreply hread => exact Hub.contains_send _ _ _ _
  | @retract rid req hsend => exact s.refuse_contains req n
  | @answerStale cid req reqs hc => exact s.refuse_contains req n
  | deliver hd => exact FileRun.deliver_contains hd n
  | @replyNone from_ req result hp =>
    rw [(s.resolve_frame req fun sentTo => FileRouter.reply sentTo from_ result).2.1]
  | @replySome from_ req result p hp =>
    show (s.resolve req fun sentTo => FileRouter.reply sentTo from_ result).1.hub.contains n = _
    rw [(s.resolve_frame req fun sentTo => FileRouter.reply sentTo from_ result).2.1]
  | @consume name msg rest monitors he =>
    show ((s.hub.clients.put name ⟨rest, monitors⟩).get? n).isSome = _
    rw [Dict.get?_put]
    split
    · next hn => rw [Hub.contains, hn, he]; rfl
    · rfl
  | ask => rfl
  | ownerNone hr => rfl
  | ownerServer hr => rfl
  | ownerClient hr howner => rfl
  | insert hr => rfl
  | unsent hsend => rfl
  | serve hr => rfl
  | announce => rfl
  | setLocal => rfl
  | dropOwner => rfl
  | collect hc => rfl

/-- A connection holds its name until its registration is dropped, and nobody else does. -/
structure SessionWf (s : FileSessions) : Prop where
  registered : ∀ sid c, s.conns.get? sid = some c → c.stage ≠ .gone →
    s.files.hub.contains c.name = true
  unique : ∀ sid sid' c c', s.conns.get? sid = some c → s.conns.get? sid' = some c' →
    c.stage ≠ .gone → c'.stage ≠ .gone → c.name = c'.name → sid = sid'
  fresh : ∀ sid c, s.conns.get? sid = some c → sid < s.nextSid

/-- At the start nobody has connected. -/
theorem sessionWf_start : SessionWf {} := by
  constructor <;> simp

/-- Changing what a connection has sent and received, or moving it on towards its end while its
registration stays. -/
theorem SessionWf.setConn {s s' : FileSessions} (h : SessionWf s) {sid : Nat}
    {c c' : Connection} (hc : s.conns.get? sid = some c) (hconns : s'.conns = s.conns.put sid c')
    (hnext : s'.nextSid = s.nextSid) (hname : c'.name = c.name)
    (hstage : c'.stage ≠ .gone → c.stage ≠ .gone)
    (hcontains : ∀ n, s'.files.hub.contains n = s.files.hub.contains n) : SessionWf s' := by
  have hold : ∀ sid' c₁, s'.conns.get? sid' = some c₁ → ∃ c₀, s.conns.get? sid' = some c₀
      ∧ c₁.name = c₀.name ∧ (c₁.stage ≠ .gone → c₀.stage ≠ .gone) := by
    intro sid' c₁ hc₁
    rw [hconns, Dict.get?_put] at hc₁
    split at hc₁
    · next he =>
      obtain rfl := Option.some.inj hc₁
      exact ⟨c, he ▸ hc, hname, hstage⟩
    · exact ⟨c₁, hc₁, rfl, id⟩
  constructor
  · intro sid' c₁ hc₁ hs₁
    obtain ⟨c₀, hc₀, hn, hs₀⟩ := hold sid' c₁ hc₁
    rw [hcontains, hn]
    exact h.registered sid' c₀ hc₀ (hs₀ hs₁)
  · intro sid₁ sid₂ c₁ c₂ hc₁ hc₂ hs₁ hs₂ hn
    obtain ⟨d₁, hd₁, hn₁, ht₁⟩ := hold sid₁ c₁ hc₁
    obtain ⟨d₂, hd₂, hn₂, ht₂⟩ := hold sid₂ c₂ hc₂
    exact h.unique sid₁ sid₂ d₁ d₂ hd₁ hd₂ (ht₁ hs₁) (ht₂ hs₂) (by rw [← hn₁, hn, hn₂])
  · intro sid' c₁ hc₁
    obtain ⟨c₀, hc₀, -⟩ := hold sid' c₁ hc₁
    rw [hnext]
    exact h.fresh sid' c₀ hc₀

/-- No step lets two connections answer to one name, or a name be registered for none. -/
theorem sessionWf_step {s s' : FileSessions} {l : SessionLabel} (h : SessionWf s)
    (hs : SessionStep s l s') : SessionWf s' := by
  cases hs with
  | @files l files hfree hf =>
    have hcontains := (fileStep_of_step hf).contains (by rintro _ _ rfl; cases hfree)
      (by rintro _ rfl; cases hfree)
    exact ⟨fun sid c hc hs => (hcontains _).trans (h.registered sid c hc hs), h.unique, h.fresh⟩
  | @connect name monitors files hf =>
    -- the name was free, so no connection holds it
    cases fileStep_of_step hf with
    | register hfree =>
    have hnobody : ∀ sid c, s.conns.get? sid = some c → c.stage ≠ .gone → c.name ≠ name := by
      rintro sid c hc hs rfl
      have hreg := h.registered sid c hc hs
      rw [Hub.contains, hfree] at hreg
      cases hreg
    constructor
    · intro sid c hc hs
      rw [Dict.get?_put] at hc
      show ((s.files.hub.clients.put name ⟨[], monitors⟩).get? c.name).isSome = true
      rw [Dict.get?_put]
      split at hc
      · obtain rfl := Option.some.inj hc
        rw [if_pos rfl]; rfl
      · rw [if_neg (hnobody sid c hc hs)]
        exact h.registered sid c hc hs
    · intro sid sid' c c' hc hc' hs hs' hn
      rw [Dict.get?_put] at hc hc'
      split at hc <;> split at hc'
      · next he he' => rw [he, he']
      · obtain rfl := Option.some.inj hc
        exact absurd hn.symm (hnobody sid' c' hc' hs')
      · obtain rfl := Option.some.inj hc'
        exact absurd hn (hnobody sid c hc hs)
      · exact h.unique sid sid' c c' hc hc' hs hs' hn
    · intro sid c hc
      rw [Dict.get?_put] at hc
      split at hc
      · next he => rw [he]; exact Nat.lt_succ_self _
      · exact Nat.lt_succ_of_lt (h.fresh sid c hc)
  | read hc => exact h.setConn hc rfl rfl rfl id fun _ => rfl
  | forget hc => exact h.setConn hc rfl rfl rfl id fun _ => rfl
  | ignore hc hstage hup hmsg => exact h.setConn hc rfl rfl rfl id fun _ => rfl
  | receive hc hstage hup hmsg hf =>
    exact h.setConn hc rfl rfl rfl id ((fileStep_of_step hf).contains (by simp) (by simp))
  | @push sid c files m hc hstage hf =>
    have hstep : s.files.step (.consume c.name) = some files := by
      show (s.files.consume c.name).map _ = _
      rw [hf]; rfl
    exact h.setConn hc rfl rfl rfl id ((fileStep_of_step hstep).contains (by simp) (by simp))
  | hear hc hdown hmsg => exact h.setConn hc rfl rfl rfl id fun _ => rfl
  | unheard hc hdown hmsg hwaits => exact h.setConn hc rfl rfl rfl id fun _ => rfl
  | resolve hc hdown hmsg hwaits => exact h.setConn hc rfl rfl rfl id fun _ => rfl
  | cleanup hc hstage hf =>
    exact h.setConn hc rfl rfl rfl (fun _ => by simp [hstage])
      ((fileStep_of_step hf).contains (by simp) (by simp))
  | @unregister sid cid c files hc hstage hclean hf =>
    obtain rfl := Option.some.inj hf
    have hlive : c.stage ≠ .gone := by simp [hstage]
    -- every other connection that holds a name holds another one
    have hold : ∀ sid' c', (s.conns.put sid { c with stage := .gone }).get? sid' = some c' →
        c'.stage ≠ .gone → sid' ≠ sid ∧ s.conns.get? sid' = some c' := by
      intro sid' c' hc' hs'
      rw [Dict.get?_put] at hc'
      split at hc'
      · obtain rfl := Option.some.inj hc'
        exact absurd rfl hs'
      · next hne => exact ⟨hne, hc'⟩
    constructor
    · intro sid' c' hc' hs'
      obtain ⟨hne, hc₀⟩ := hold sid' c' hc' hs'
      have hother : c'.name ≠ c.name := fun hn => hne (h.unique sid' sid c' c hc₀ hc hs' hlive hn)
      show ((s.files.hub.clients.drop c.name).get? c'.name).isSome = true
      rw [Dict.get?_drop, if_neg hother]
      exact h.registered sid' c' hc₀ hs'
    · intro sid₁ sid₂ c₁ c₂ hc₁ hc₂ hs₁ hs₂ hn
      exact h.unique sid₁ sid₂ c₁ c₂ (hold sid₁ c₁ hc₁ hs₁).2 (hold sid₂ c₂ hc₂ hs₂).2 hs₁ hs₂ hn
    · intro sid' c' hc'
      rw [show ({ s.setConn sid { c with stage := .gone } with
        files := { s.files with hub := s.files.hub.removeClient c.name } } : FileSessions).conns
        = s.conns.put sid { c with stage := .gone } from rfl, Dict.get?_put] at hc'
      split at hc'
      · next he => rw [he]; exact h.fresh sid c hc
      · exact h.fresh sid' c' hc'

/-- The invariant holds in every state reached. -/
theorem sessionWf_reach {ok : FileSessions → SessionLabel → Prop} {s : FileSessions}
    (hs : fileSessions.Reach ok s) : SessionWf s := by
  refine Lts.Reach.invariant (P := SessionWf) ?_ ?_ hs
  · rintro _ rfl
    exact sessionWf_start
  · intro _ _ _ _ ih _ hl
    exact sessionWf_step ih (sessionStep_of_step hl)

end GeserDesk
