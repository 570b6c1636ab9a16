import GeserDesk.System.DeskRuns
import GeserDesk.System.InjectRuns

/-!
# The machines that are driven

The server of `InputRuns` with the machines at the other ends of its connections. The session of
a registration takes the messages of its queue in order and writes them to the stream; the
`session_loop` of the client there reads them in order and calls its input sink, whose actions
change what its operating system has pressed. A connection may end at either end at any moment:
the server's session goes, and what is on its way may still arrive; or the client's loop returns,
for whatever reason, and `connect_with_status` calls the sink's `leave` before it waits and tries
again.

* **`input_released`**: in every run in which the router is told of a registration apart from the
  ones before it, a machine has nothing pressed while it is not connected, or has been told of
  nothing but whole visits of the cursor; it acts on a key or a button only during a visit; and
  once everything queued has arrived, a machine that is not the active screen has nothing pressed.
-/

namespace GeserDesk

variable {κ : Type} [DecidableEq κ]

/-- A client's end of one registration. -/
structure DrivenLink where
  sid : Nat
  name : String
  /-- How many messages of the queue the server's session has written. -/
  taken : Nat := 0
  /-- Written, and not read by the client yet. -/
  onWay : List ServerMsg := []
  /-- What the client's loop has handled (bookkeeping only). -/
  handled : List ServerMsg := []

/-- A machine that runs a client: its sink outlives its connections. -/
structure DrivenMachine (κ : Type) where
  run : SinkRun κ
  link : Option DrivenLink := none

structure DrivenRun (κ : Type) where
  io : InputRun
  machines : Dict Nat (DrivenMachine κ) := ∅

inductive DrivenLabel where
  | server (l : InputLabel)
  /-- A client's program starts on a machine. -/
  | power (m : Nat) (target : Target) (perform : Dict Nat Perform)
  /-- The connection of machine `m` is registered. -/
  | register (m : Nat) (name : String) (monitors : List Rect)
  /-- The session at the other end of `m` takes a message of its queue. -/
  | forward (m : Nat)
  /-- The loop of `m` handles a message, with what the keyboard layout is at that moment. -/
  | handle (m : Nat) (layout : KeyLayout)
  /-- The loop of `m` returns, for any reason. -/
  | hangUp (m : Nat)

/-- The call of the sink in the arm of `session_loop` that handles a message. -/
def ServerMsg.sinkCall (layout : KeyLayout) : ServerMsg → Option SinkLabel
  | .enter x y _ _ => some (.enter ⟨x, y⟩)
  | .leave => some .leave
  | .key ev => some (.key layout ev)
  | .mouse ev => some (.mouse ev)
  | _ => none

/-- `session_loop` returns at this message. -/
def ServerMsg.endsSession : ServerMsg → Bool
  | .close _ => true
  | _ => false

namespace DrivenMachine

variable (code : EKey → κ)

/-- `connect_with_status` after a connection: whatever was held is released. -/
def released (d : DrivenMachine κ) : DrivenMachine κ :=
  { run := ((SinkRun.step code d.run .leave).getD d.run), link := none }

/-- One pass of `session_loop` with a message. -/
def hear (d : DrivenMachine κ) (link : DrivenLink) (layout : KeyLayout) (msg : ServerMsg)
    (rest : List ServerMsg) : DrivenMachine κ :=
  if msg.endsSession then d.released code
  else
    let run := match msg.sinkCall layout with
      | some call => (SinkRun.step code d.run call).getD d.run
      | none => d.run
    { run := run, link := some { link with onWay := rest, handled := link.handled ++ [msg] } }

end DrivenMachine

namespace DrivenRun

def step (code : EKey → κ) (s : DrivenRun κ) : DrivenLabel → Option (DrivenRun κ)
  | .server l => (s.io.step l).map fun io => { s with io := io }
  | .power m target perform =>
    match s.machines.get? m with
    | some _ => none
    | none =>
      let run : SinkRun κ := { sink := { target := target, perform := perform }, os := ⟨∅, ∅⟩ }
      some { s with machines := s.machines.put m ⟨run, none⟩ }
  | .register m name monitors =>
    match s.machines.get? m with
    | some ⟨run, none⟩ =>
      (s.io.step (.hub (.registerInsert name monitors))).map fun io =>
        { io := io
          machines := s.machines.put m ⟨run, some { sid := s.io.base.nextSession, name := name }⟩ }
    | _ => none
  | .forward m =>
    match s.machines.get? m with
    | some ⟨run, some link⟩ =>
      match s.io.base.sessions.get? link.sid, s.io.base.hub.clients.get? link.name with
      | some (.live name), some e =>
        match e.outbox[link.taken]? with
        | some msg =>
          let link' := { link with taken := link.taken + 1, onWay := link.onWay ++ [msg] }
          if name = link.name then some { s with machines := s.machines.put m ⟨run, some link'⟩ }
          else none
        | none => none
      | _, _ => none
    | _ => none
  | .handle m layout =>
    match s.machines.get? m with
    | some ⟨run, some link⟩ =>
      match link.onWay with
      | msg :: rest =>
        let heard := DrivenMachine.hear code ⟨run, some link⟩ link layout msg rest
        some { s with machines := s.machines.put m heard }
      | [] => none
    | _ => none
  | .hangUp m =>
    match s.machines.get? m with
    | some ⟨run, some link⟩ =>
      some { s with machines := s.machines.put m (DrivenMachine.released code ⟨run, some link⟩) }
    | _ => none

end DrivenRun

/-- The server and the machines it drives, as a transition system. -/
def drivenRuns (code : EKey → κ) : Lts (DrivenRun κ) DrivenLabel where
  init s := ∃ io, inputRuns.init io ∧ s = { io := io }
  step := DrivenRun.step code

/-- The router is told of a registration apart from the ones before it. -/
def DrivenRun.ToldApart (s : DrivenRun κ) : DrivenLabel → Prop
  | .server l => GeserDesk.ToldApart s.io l
  | .register _ name monitors => GeserDesk.ToldApart s.io (.hub (.registerInsert name monitors))
  | _ => True

instance (s : DrivenRun κ) (l : DrivenLabel) : Decidable (s.ToldApart l) := by
  unfold DrivenRun.ToldApart
  split <;> infer_instance

/-- The session of a link's registration is still the one registered under its name. -/
def DrivenRun.Registered (s : DrivenRun κ) (link : DrivenLink) : Prop :=
  ∃ pc, s.io.base.sessions.get? link.sid = some pc ∧ pc.holds = some link.name

/-- Everything queued for a link so far has been handled. -/
def DrivenRun.UpToDate (s : DrivenRun κ) (link : DrivenLink) : Prop :=
  ∃ e, s.io.base.hub.clients.get? link.name = some e ∧ link.handled = e.outbox

/-- What is pressed on a machine, and when. -/
structure DrivenRun.Released (s : DrivenRun κ) : Prop where
  /-- Nothing is pressed on a machine that is not connected. -/
  idle : ∀ m run, s.machines.get? m = some ⟨run, none⟩ → run.os = ⟨∅, ∅⟩
  /-- What a connected machine has handled is whole visits, and perhaps one under way. -/
  visits : ∀ m run link, s.machines.get? m = some ⟨run, some link⟩ →
    Spans (inputMarks link.handled) ∨ SpansOpen (inputMarks link.handled)
  /-- Between visits nothing is pressed. -/
  between : ∀ m run link, s.machines.get? m = some ⟨run, some link⟩ →
    Spans (inputMarks link.handled) → run.os = ⟨∅, ∅⟩
  /-- With every action carried out and every message handled, only the active screen can have
  anything pressed. -/
  settled : s.io.turn.pending = [] → ∀ m run link, s.machines.get? m = some ⟨run, some link⟩ →
    s.Registered link → s.UpToDate link → s.io.turn.core.activeRemote ≠ some link.name →
    run.os = ⟨∅, ∅⟩

/-! ## A queue as long as its registration lasts

A machine's queue grows at its end while it is registered, and is gone afterwards. -/

/-- A session that holds a name after a step has held it before, unless it is new. -/
theorem HubStep.held_before {b b' : HubRun} {l : HubLabel} (h : HubStep b l b') {sid : Nat}
    {name : String} {pc' : SessionPc} (hold : sid < b.nextSession)
    (hpc' : b'.sessions.get? sid = some pc') (hholds : pc'.holds = some name) :
    ∃ pc, b.sessions.get? sid = some pc ∧ pc.holds = some name := by
  -- a session that moved held the name before, or holds none now
  have hput : ∀ (sid' : Nat) (old pc : SessionPc), b.sessions.get? sid' = some old →
      (b.sessions.put sid' pc).get? sid = some pc' → old.holds = pc.holds ∨ pc.holds = none →
      ∃ pc, b.sessions.get? sid = some pc ∧ pc.holds = some name := by
    intro sid' old pc hold hget hsame
    rw [Dict.get?_put] at hget
    split at hget
    · next hsid =>
      obtain rfl := Option.some.inj hget
      refine ⟨old, hsid ▸ hold, ?_⟩
      rcases hsame with hsame | hnone
      · rw [hsame, hholds]
      · rw [hnone] at hholds
        cases hholds
    · exact ⟨pc', hget, hholds⟩
  cases h with
  -- a new session is no old one
  | registerInsert hfree =>
    simp only [Dict.get?_put] at hpc'
    rw [if_neg (Nat.ne_of_lt hold)] at hpc'
    exact ⟨pc', hpc', hholds⟩
  | checkOff hpc hoff => exact hput _ _ _ hpc hpc' (.inl rfl)
  | checkOn hpc hon => exact hput _ _ _ hpc hpc' (.inl rfl)
  | announce hpc => exact hput _ _ _ hpc hpc' (.inl rfl)
  | monitorsNew hpc he => exact hput _ _ _ hpc hpc' (.inl rfl)
  | remove hpc => exact hput _ _ _ hpc hpc' (.inr rfl)
  | sayGone hpc =>
    simp only [Dict.get?_drop] at hpc'
    split at hpc'
    · cases hpc'
    · exact ⟨pc', hpc', hholds⟩
  -- the rest leaves the sessions as they are
  | monitorsSame => exact ⟨pc', hpc', hholds⟩
  | flipSame => exact ⟨pc', hpc', hholds⟩
  | flipOff hadmin hon => exact ⟨pc', hpc', hholds⟩
  | flipOn hadmin hoff => exact ⟨pc', hpc', hholds⟩
  | tellNobody hadmin hgone => exact ⟨pc', hpc', hholds⟩
  | tellOff hadmin he => exact ⟨pc', hpc', hholds⟩
  | tellOn hadmin he => exact ⟨pc', hpc', hholds⟩
  | post hev => exact ⟨pc', hpc', hholds⟩

/-- What a step of the server does to its registrations: a session keeps its queue as long as it
is registered, and the queue only grows. -/
structure InputRun.Goes (s s' : InputRun) : Prop where
  wf : HubWf s'.base
  next : s.base.nextSession ≤ s'.base.nextSession
  held : ∀ sid name pc', sid < s.base.nextSession → s'.base.sessions.get? sid = some pc' →
    pc'.holds = some name →
    (∃ pc, s.base.sessions.get? sid = some pc ∧ pc.holds = some name)
      ∧ ∃ e e' more, s.base.hub.clients.get? name = some e
        ∧ s'.base.hub.clients.get? name = some e' ∧ e'.outbox = e.outbox ++ more

/-- Session numbers only go up. -/
theorem HubStep.next_le {b b' : HubRun} {l : HubLabel} (h : HubStep b l b') :
    b.nextSession ≤ b'.nextSession := by
  cases h with
  | registerInsert hfree => exact Nat.le_succ _
  | _ => exact Nat.le_refl _

/-- A message queued goes to the session registered, at the end of its outbox. -/
theorem InputRun.goes_queue {s s' : InputRun} (hwf : HubWf s.base) {to_ : String} {msg : ServerMsg}
    (hbase : s'.base = s.queue to_ msg) : s.Goes s' := by
  have hwf' : HubWf s'.base := by rw [hbase]; exact hwf.alike (alike_queue s to_ msg).1
  have hsessions : s'.base.sessions = s.base.sessions := by rw [hbase]; rfl
  refine ⟨hwf', by rw [hbase]; exact Nat.le_refl _, fun sid name pc' _ hpc' hholds => ?_⟩
  obtain ⟨e', he'⟩ := Option.isSome_iff_exists.mp (hwf'.entry sid pc' name hpc' hholds)
  rw [hbase] at he'
  obtain ⟨e, he, hout⟩ := InputRun.queue_get? he'
  exact ⟨⟨pc', hsessions ▸ hpc', hholds⟩, e, e', _, he, hbase ▸ he', hout⟩

/-- Where the hub does nothing, nothing comes. -/
theorem InputRun.goes_same {s s' : InputRun} (hwf : HubWf s.base) (hbase : s'.base = s.base) :
    s.Goes s' := by
  refine ⟨hbase ▸ hwf, by rw [hbase], fun sid name pc' _ hpc' hholds => ?_⟩
  rw [hbase] at hpc' ⊢
  obtain ⟨e, he⟩ := Option.isSome_iff_exists.mp (hwf.entry sid pc' name hpc' hholds)
  exact ⟨⟨pc', hpc', hholds⟩, e, e, [], he, he, (List.append_nil _).symm⟩

/-- The hub's own steps queue nothing. -/
theorem InputRun.goes_hub {s s' : InputRun} (hwf : HubWf s.base) {l : HubLabel}
    {base : HubRun} (h : HubStep s.base l base) (hbase : s'.base = base) : s.Goes s' := by
  subst hbase
  have hwf' := hubWf_step hwf h
  refine ⟨hwf', h.next_le, fun sid name pc' hold hpc' hholds => ?_⟩
  obtain ⟨pc, hpc, hheld⟩ := h.held_before hold hpc' hholds
  obtain ⟨e', he'⟩ := Option.isSome_iff_exists.mp (hwf'.entry sid pc' name hpc' hholds)
  obtain ⟨e, he⟩ := Option.isSome_iff_exists.mp (hwf.entry sid pc name hpc hheld)
  refine ⟨⟨pc, hpc, hheld⟩, e, e', [], he, he', ?_⟩
  rw [List.append_nil]
  rcases h.outbox he' with ⟨e₀, he₀, hsame⟩ | ⟨ms, rfl, -⟩
  · rw [he₀] at he
    rw [hsame, Option.some.inj he]
  · -- a name that is taken is not registered again
    generalize s'.base = base' at h
    cases h with
    | registerInsert hfree => rw [hfree] at he; cases he

/-- **A step of the server keeps the queues of those who stay registered, and adds to them.** -/
theorem InputRun.goes_step {s s' : InputRun} {l : InputLabel} (hwf : HubWf s.base)
    (h : s.step l = some s') : s.Goes s' := by
  -- one case for the hub's own steps; a message queued and a reaction only lengthen outboxes
  cases l with
  | hub l =>
    simp only [InputRun.step] at h
    split at h
    · cases h
    · next base hstep =>
      obtain rfl := Option.some.inj h
      exact InputRun.goes_hub hwf (hubStep_of_step hstep) rfl
  | traffic name msg =>
    simp only [InputRun.step] at h
    split at h
    · cases h
    · obtain rfl := Option.some.inj h
      exact InputRun.goes_queue hwf rfl
  | capture ev nowMs =>
    simp only [InputRun.step] at h
    split at h
    · cases h
    · obtain rfl := Option.some.inj h
      exact InputRun.goes_same hwf rfl
  | hubEvent =>
    simp only [InputRun.step] at h
    split at h
    · cases h
    · split at h
      · cases h
      · obtain rfl := Option.some.inj h
        exact InputRun.goes_same hwf rfl
  | act =>
    simp only [InputRun.step] at h
    split at h
    · cases h
    · obtain rfl := Option.some.inj h
      exact InputRun.goes_queue hwf rfl
    · obtain rfl := Option.some.inj h
      exact InputRun.goes_same hwf rfl
    · obtain rfl := Option.some.inj h
      exact InputRun.goes_same hwf rfl

/-! ## The invariant

What a machine holds down is what the messages it has heard say, and those to come take it up
again. -/

/-- What one machine has pressed agrees with what it was told. -/
structure DrivenMachine.Inv (code : EKey → κ) (io : InputRun) (d : DrivenMachine κ) : Prop where
  sink : SinkInv code d.run
  idle : d.link = none → d.run.os = ⟨∅, ∅⟩
  lawful : ∀ link, d.link = some link →
    (Mark.scan false (inputMarks (link.handled ++ link.onWay))).isSome = true
  between : ∀ link, d.link = some link → Mark.scan false (inputMarks link.handled) = some false →
    d.run.os = ⟨∅, ∅⟩
  old : ∀ link, d.link = some link → link.sid < io.base.nextSession
  /-- While its registration lasts, what it was sent is the front of the queue. -/
  front : ∀ link, d.link = some link → ∀ pc, io.base.sessions.get? link.sid = some pc →
    pc.holds = some link.name → ∃ e, io.base.hub.clients.get? link.name = some e
      ∧ link.handled ++ link.onWay = e.outbox.take link.taken ∧ link.taken ≤ e.outbox.length

structure DrivenInv (code : EKey → κ) (s : DrivenRun κ) : Prop where
  io : InputInv s.io
  wf : HubWf s.io.base
  machine : ∀ m d, s.machines.get? m = some d → d.Inv code s.io

section

variable {code : EKey → κ}

/-- The front of marks the recogniser accepts is accepted. -/
theorem Mark.isSome_scan_left {ms ms' : List Mark} (h : (Mark.scan false (ms ++ ms')).isSome = true) :
    (Mark.scan false ms).isSome = true := by
  rw [Mark.scan_append] at h
  cases hscan : Mark.scan false ms with
  | none => rw [hscan] at h; cases h
  | some b => rfl

/-- The queue of a registered client is accepted. -/
theorem InputInv.isSome_outbox {s : InputRun} (h : InputInv s) {name : String}
    {e : Entry ServerMsg} (he : s.base.hub.clients.get? name = some e) :
    (Mark.scan false (inputMarks e.outbox)).isSome = true := by
  have hspan := h.spans name e he
  rw [inputMarks_append] at hspan
  exact Mark.isSome_scan_left (by rw [hspan]; rfl)

/-- A machine that is let go of has nothing pressed. -/
theorem DrivenMachine.Inv.released {io : InputRun} {d : DrivenMachine κ} (h : d.Inv code io) :
    (d.released code).Inv code io := by
  have hstep : SinkRun.step code d.run .leave = some (d.released code).run := rfl
  have hsink : SinkInv code (d.released code).run := h.sink.step hstep
  exact ⟨hsink, fun _ => h.sink.leave, nofun, nofun, nofun, nofun⟩

omit [DecidableEq κ] in
/-- A step of the server keeps what every machine was told and has pressed. -/
theorem DrivenMachine.Inv.goes {io io' : InputRun} {d : DrivenMachine κ} (h : d.Inv code io)
    (hgo : io.Goes io') : d.Inv code io' := by
  refine ⟨h.sink, h.idle, h.lawful, h.between, fun link hlink => ?_,
    fun link hlink pc' hpc' hholds => ?_⟩
  · exact Nat.lt_of_lt_of_le (h.old link hlink) hgo.next
  · obtain ⟨⟨pc, hpc, hheld⟩, e, e', more, he, he', hout⟩ :=
      hgo.held link.sid link.name pc' (h.old link hlink) hpc' hholds
    obtain ⟨e₀, he₀, htake, hlen⟩ := h.front link hlink pc hpc hheld
    rw [he, Option.some.injEq] at he₀
    subst he₀
    refine ⟨e', he', ?_, ?_⟩
    · rw [htake, hout, List.take_append_of_le_length hlen]
    · rw [hout, List.length_append]
      exact Nat.le_add_right_of_le hlen

/-- A message that is not input, or a `Close`, asks nothing of the sink. -/
theorem ServerMsg.sinkCall_none_iff (layout : KeyLayout) (msg : ServerMsg) :
    msg.sinkCall layout = none ↔ msg.mark = none := by
  cases msg <;> simp [sinkCall, mark]

/-- A machine is between visits after a message only if the message was `Leave`, or it was
between visits before and the message was not input. -/
theorem closed_after {msgs : List ServerMsg} {msg : ServerMsg}
    (h : Mark.scan false (inputMarks (msgs ++ [msg])) = some false) :
    msg = .leave ∨ (msg.mark = none ∧ Mark.scan false (inputMarks msgs) = some false) := by
  rw [inputMarks_append, Mark.scan_append] at h
  cases hscan : Mark.scan false (inputMarks msgs) with
  | none => rw [hscan] at h; cases h
  | some b =>
    have hone : inputMarks [msg] = msg.mark.toList := by
      cases hmark : msg.mark <;> simp [inputMarks, hmark]
    rw [hscan, hone] at h
    cases hmark : msg.mark with
    | none =>
      rw [hmark] at h
      exact .inr ⟨rfl, congrArg some (Option.some.inj h)⟩
    | some mark =>
      left
      -- only a closing mark leaves no visit open
      cases msg <;> cases b <;> cases hmark <;> first | rfl | cases h

/-- **Handling a message keeps the invariant of a machine.** -/
theorem DrivenMachine.Inv.hear {io : InputRun} {run : SinkRun κ} {link : DrivenLink}
    (h : DrivenMachine.Inv code io ⟨run, some link⟩) (layout : KeyLayout) {msg : ServerMsg}
    {rest : List ServerMsg} (hway : link.onWay = msg :: rest) :
    (DrivenMachine.hear code ⟨run, some link⟩ link layout msg rest).Inv code io := by
  unfold DrivenMachine.hear
  split
  · exact h.released
  · have hsplit : (link.handled ++ [msg]) ++ rest = link.handled ++ link.onWay := by
      rw [hway, List.append_assoc]; rfl
    refine ⟨?_, nofun, ?_, ?_, ?_, ?_⟩
    · -- the sink's own invariant, whatever the message
      cases hcall : msg.sinkCall layout with
      | none => exact h.sink
      | some call =>
        cases hstep : SinkRun.step code run call with
        | none => simpa [hcall, hstep] using h.sink
        | some run' => simpa [hcall, hstep] using h.sink.step hstep
    · rintro _ ⟨⟩
      show (Mark.scan false (inputMarks ((link.handled ++ [msg]) ++ rest))).isSome = true
      rw [hsplit]
      exact h.lawful link rfl
    · rintro _ ⟨⟩ hclosed
      rcases closed_after hclosed with rfl | ⟨hmark, hbefore⟩
      · exact h.sink.leave
      · rw [(msg.sinkCall_none_iff layout).mpr hmark]
        exact h.between link rfl hbefore
    · rintro _ ⟨⟩
      exact h.old link rfl
    · rintro _ ⟨⟩ pc hpc hholds
      show ∃ e, _ ∧ (link.handled ++ [msg]) ++ rest = _ ∧ _
      rw [hsplit]
      exact h.front link rfl pc hpc hholds

omit [DecidableEq κ] in
/-- Taking a message of the queue keeps the invariant of a machine. -/
theorem DrivenMachine.Inv.forward {io : InputRun} (hio : InputInv io) {run : SinkRun κ}
    {link : DrivenLink} (h : DrivenMachine.Inv code io ⟨run, some link⟩)
    {e : Entry ServerMsg} {msg : ServerMsg}
    (hpc : io.base.sessions.get? link.sid = some (.live link.name))
    (he : io.base.hub.clients.get? link.name = some e) (hmsg : e.outbox[link.taken]? = some msg) :
    DrivenMachine.Inv code io
      ⟨run, some { link with taken := link.taken + 1, onWay := link.onWay ++ [msg] }⟩ := by
  obtain ⟨e₀, he₀, htake, -⟩ := h.front link rfl _ hpc rfl
  rw [he, Option.some.injEq] at he₀
  subst he₀
  obtain ⟨hlt, hget⟩ := List.getElem?_eq_some_iff.mp hmsg
  have hnext : link.handled ++ (link.onWay ++ [msg]) = e.outbox.take (link.taken + 1) := by
    rw [← List.append_assoc, htake, List.take_succ_eq_append_getElem hlt, hget]
  refine ⟨h.sink, nofun, ?_, ?_, ?_, ?_⟩
  · rintro _ ⟨⟩
    show (Mark.scan false (inputMarks (link.handled ++ (link.onWay ++ [msg])))).isSome = true
    have hall := hio.isSome_outbox he
    rw [← List.take_append_drop (link.taken + 1) e.outbox, inputMarks_append] at hall
    rw [hnext]
    exact Mark.isSome_scan_left hall
  · rintro _ ⟨⟩ hclosed
    exact h.between link rfl hclosed
  · rintro _ ⟨⟩
    exact h.old link rfl
  · rintro _ ⟨⟩ pc hpc' hholds
    exact ⟨e, he, hnext, hlt⟩

omit [DecidableEq κ] in
/-- The step of the machines is the step of one machine. -/
theorem DrivenInv.put {s : DrivenRun κ} (h : DrivenInv code s) {m : Nat} {d : DrivenMachine κ}
    (hd : d.Inv code s.io) : DrivenInv code { s with machines := s.machines.put m d } := by
  refine ⟨h.io, h.wf, fun m' d' hd' => ?_⟩
  rw [Dict.get?_put] at hd'
  split at hd'
  · obtain rfl := Option.some.inj hd'
    exact hd
  · exact h.machine m' d' hd'

/-- **One step keeps the invariant.** -/
theorem drivenInv_step {s s' : DrivenRun κ} {l : DrivenLabel} (h : DrivenInv code s)
    (hok : s.ToldApart l) (hs : DrivenRun.step code s l = some s') : DrivenInv code s' := by
  cases l with
  | server l =>
    obtain ⟨io, hio, rfl⟩ := Option.map_eq_some_iff.mp hs
    have hgo := InputRun.goes_step h.wf hio
    exact ⟨inputInv_step h.io hok hio, hgo.wf, fun m d hd => (h.machine m d hd).goes hgo⟩
  | power m target perform =>
    simp only [DrivenRun.step] at hs
    split at hs
    · cases hs
    · obtain rfl := Option.some.inj hs
      refine h.put ⟨⟨rfl, ?_, ?_⟩, fun _ => rfl, ?_, ?_, ?_, ?_⟩
      · exact fun c hc => absurd hc (Finset.notMem_empty c)
      · exact fun b hb => absurd hb (Finset.notMem_empty b)
      all_goals rintro _ ⟨⟩
  | register m name monitors =>
    simp only [DrivenRun.step] at hs
    split at hs
    · next run hm =>
      obtain ⟨io, hio, rfl⟩ := Option.map_eq_some_iff.mp hs
      have hgo := InputRun.goes_step h.wf hio
      have hidle := h.machine m _ hm
      have hall : DrivenInv code { s with io := io } :=
        ⟨inputInv_step (l := .hub (.registerInsert name monitors)) h.io hok hio, hgo.wf,
          fun m d hd => (h.machine m d hd).goes hgo⟩
      -- the registration is new, and its queue empty
      simp only [InputRun.step] at hio
      split at hio
      · cases hio
      · next base hbase =>
        obtain rfl := Option.some.inj hio
        generalize hl : HubLabel.registerInsert name monitors = l at hbase
        cases hubStep_of_step hbase with
        | @registerInsert n ms hfree =>
          obtain ⟨rfl, rfl⟩ := HubLabel.registerInsert.inj hl
          refine hall.put ⟨hidle.sink, ?_, ?_, ?_, ?_, ?_⟩
          · intro hnone
            cases hnone
          · rintro _ ⟨⟩
            rfl
          · rintro _ ⟨⟩ -
            exact hidle.idle rfl
          · rintro _ ⟨⟩
            exact Nat.lt_succ_self _
          · rintro _ ⟨⟩ pc hpc hholds
            exact ⟨⟨[], monitors⟩, by rw [Dict.get?_put, if_pos rfl], rfl, Nat.le_refl _⟩
        | _ => cases hl
    · cases hs
  | forward m =>
    simp only [DrivenRun.step] at hs
    split at hs
    · next run link hm =>
      split at hs
      · next name e hpc he =>
        split at hs
        · next msg hmsg =>
          split at hs
          · next hname =>
            obtain rfl := Option.some.inj hs
            exact h.put ((h.machine m _ hm).forward h.io (hname ▸ hpc) he hmsg)
          · cases hs
        · cases hs
      · cases hs
    · cases hs
  | handle m layout =>
    simp only [DrivenRun.step] at hs
    split at hs
    · next run link hm =>
      split at hs
      · next msg rest hway =>
        obtain rfl := Option.some.inj hs
        exact h.put ((h.machine m _ hm).hear layout hway)
      · cases hs
    · cases hs
  | hangUp m =>
    simp only [DrivenRun.step] at hs
    split at hs
    · next run link hm =>
      obtain rfl := Option.some.inj hs
      exact h.put (h.machine m _ hm).released
    · cases hs

/-- **The invariant holds in every state of a run whose steps tell registrations apart.** -/
theorem drivenInv_reach {s : DrivenRun κ} (hs : (drivenRuns code).Reach DrivenRun.ToldApart s) :
    DrivenInv code s := by
  refine hs.invariant (fun s hinit => ?_) fun s l s' _ h hok hl => drivenInv_step h hok hl
  obtain ⟨_, ⟨core, added, disabled, -, rfl⟩, rfl⟩ := hinit
  refine ⟨inputInv_start core added disabled, hubWf_start added disabled, fun m d hd => ?_⟩
  rw [Dict.get?_empty] at hd
  cases hd

/-- **Only the screen that has the cursor has anything pressed**, once everything has arrived; and
at no moment has a machine that is not connected, or that is between two visits. -/
theorem input_released {s : DrivenRun κ} (hs : (drivenRuns code).Reach DrivenRun.ToldApart s) :
    s.Released := by
  have h := drivenInv_reach hs
  refine ⟨fun m run hm => (h.machine m _ hm).idle rfl, fun m run link hm => ?_,
    fun m run link hm hspans => ?_, fun hrest m run link hm hreg hup hother => ?_⟩
  · have hlawful := (h.machine m _ hm).lawful link rfl
    rw [inputMarks_append] at hlawful
    exact spans_or_open (Mark.isSome_scan_left hlawful)
  · exact (h.machine m _ hm).between link rfl (Mark.scan_of_spans hspans)
  · obtain ⟨e, he, hall⟩ := hup
    refine (h.machine m _ hm).between link rfl ?_
    have hspan := h.io.spans link.name e he
    rw [hrest, show messagesFor link.name [] = [] from rfl, List.append_nil,
      decide_eq_false hother] at hspan
    rw [hall]
    exact hspan

end

/-- "b" is driven: a key goes down there, and the input comes home. -/
def thereAndBack : List DrivenLabel :=
  [.power 7 .unix ∅, .register 7 "b" [⟨0, 0, 1280, 720⟩], .server (.hub (.check 0)),
    .server (.hub (.announce 0)), .server .hubEvent, .server (.capture .hotkey 0), .server .act,
    .server .act, .server (.capture (.key (.bare 0x2B .down)) 1), .server .act, .forward 7,
    .handle 7 fun _ => none, .forward 7, .handle 7 fun _ => none, .server (.capture .hotkey 2),
    .server .act, .server .act, .forward 7, .handle 7 fun _ => none]

/-- The cursor goes to a client and comes back. -/
theorem input_released_there_and_back :
    ∃ s : DrivenRun EKey, (drivenRuns id).Reach DrivenRun.ToldApart s
      ∧ (∃ link, (s.machines.get? 7).bind (·.link) = some link ∧ link.handled.length = 3)
      ∧ s.Released := by
  have hend : ((drivenRuns (id : EKey → EKey)).exec DrivenRun.ToldApart
      { io := { base := HubRun.start [] ∅, turn := ⟨Core.twoScreens, []⟩ } } thereAndBack).map
      (fun s => ((s.machines.get? 7).bind (·.link)).map (·.handled.length)) = some (some 3) := by
    decide +kernel
  obtain ⟨s, hs, hlink⟩ := Option.map_eq_some_iff.mp hend
  obtain ⟨link, hget, hlen⟩ := Option.map_eq_some_iff.mp hlink
  have hreach : (drivenRuns id).Reach DrivenRun.ToldApart s :=
    Lts.reach_of_exec ⟨_, ⟨_, [], ∅, Core.twoScreens_isNew, rfl⟩, rfl⟩ hs
  exact ⟨s, hreach, ⟨link, hget, hlen⟩, input_released hreach⟩

end GeserDesk
