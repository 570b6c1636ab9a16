import GeserDesk.System.HubView
import GeserDesk.Server.Handover

/-!
# Input sessions

The hub of `HubRuns` with the router's loop: the router takes the hub's events in order, capture
events arrive at any time, and the actions of an event are carried out one send at a time while
sessions and the admin thread go on.

An outbox here holds everything queued during a registration; taking messages off its front is
the session's own business.

* **`input_sessions_lawful`**: what is queued for a client during one registration is a sequence
  of `Enter`, keys and mouse, `Leave`; the last one is open exactly for the client that has the
  input; and the numbers of the `Enter`s increase over the run. This is so in every run in which
  the router is told of a registration apart from the ones before it (`ToldApart`).
* **`disabled_while_active_gets_no_leave`**: turning the active screen off is reported to the
  router as the client being gone, so its client, still connected, is never sent `Leave`.
-/

namespace GeserDesk

structure InputRun where
  base : HubRun
  /-- How many of the hub's events the router has taken. -/
  seen : Nat := 0
  turn : Turn
  /-- The numbers of the `Enter`s queued so far (bookkeeping only). -/
  entered : List Nat := []
  /-- What was queued for the registrations that are over (bookkeeping only). -/
  ended : List (String × List ServerMsg) := []

inductive InputLabel where
  | hub (l : HubLabel)
  /-- Anything that is not input is queued for a client. -/
  | traffic (name : String) (msg : ServerMsg)
  | capture (ev : CaptureEvent) (nowMs : Nat)
  | hubEvent
  | act

/-- The number of an `Enter`. -/
def ServerMsg.enterSeq? : ServerMsg → Option Nat
  | .enter _ _ seq _ => some seq
  | _ => none

namespace InputRun

/-- The registration a step of the hub ends, with what was queued for it. -/
def ending (s : HubRun) : HubLabel → List (String × List ServerMsg)
  | .remove sid =>
    match s.sessions.get? sid with
    | some (.live name) => ((s.hub.clients.get? name).map fun e => (name, e.outbox)).toList
    | _ => []
  | _ => []

def queue (s : InputRun) (name : String) (msg : ServerMsg) : HubRun :=
  { s.base with hub := (s.base.hub.send name msg).1 }

def step (s : InputRun) : InputLabel → Option InputRun
  | .hub l =>
    match s.base.step l with
    | none => none
    | some base => some { s with base := base, ended := s.ended ++ ending s.base l }
  | .traffic name msg =>
    match msg.mark with
    | some _ => none
    | none => some { s with base := s.queue name msg }
  | .capture ev nowMs =>
    match s.turn.take fun c => c.handle ev nowMs with
    | none => none
    | some turn => some { s with turn := turn }
  | .hubEvent =>
    match s.base.hub.events[s.seen]? with
    | none => none
    | some ev =>
      match s.turn.take fun c => c.onHubEvent ev with
      | none => none
      | some turn => some { s with turn := turn, seen := s.seen + 1 }
  | .act =>
    match s.turn.act s.base.hub.contains with
    | none => none
    | some (turn, some (.message to_ msg)) => some { s with
        turn := turn
        base := s.queue to_ msg
        entered := s.entered ++ msg.enterSeq?.toList }
    | some (turn, some (.command _)) | some (turn, none) => some { s with turn := turn }

end InputRun

/-- The hub, its sessions and admin thread, and the router, as a transition system. -/
def inputRuns : Lts InputRun InputLabel where
  init s := ∃ (core : Core) (added : List String) (disabled : Finset String), core.IsNew
    ∧ s = { base := HubRun.start added disabled, turn := ⟨core, []⟩ }
  step := InputRun.step

/-! ## What is queued for one client

The marks of one client's queue: entered, left, and input between. -/

/-- The spans of input in a queue. -/
def inputMarks (msgs : List ServerMsg) : List Mark := msgs.filterMap ServerMsg.mark

/-- The message of an action for `name`. -/
def Action.messageFor? (name : String) : Action → Option ServerMsg
  | .send to_ msg => if to_ = name then some msg else none
  | .capture _ => none

/-- What pending actions will queue for `name`. -/
def messagesFor (name : String) (acts : List Action) : List ServerMsg :=
  acts.filterMap (Action.messageFor? name)

/-- The number of the `Enter` an action sends. -/
def Action.enterSeq? : Action → Option Nat
  | .send _ msg => msg.enterSeq?
  | .capture _ => none

def enterSeqs (acts : List Action) : List Nat := acts.filterMap Action.enterSeq?

/-- The law of input sessions: what every registration is sent, and the numbers of the entries. -/
structure InputRun.Lawful (s : InputRun) : Prop where
  /-- What is queued for a registered client is whole sessions, then at most one open one. -/
  queued : ∀ name e, s.base.hub.clients.get? name = some e →
    Spans (inputMarks e.outbox) ∨ SpansOpen (inputMarks e.outbox)
  /-- So it was for every registration that is over. -/
  past : ∀ p ∈ s.ended, Spans (inputMarks p.2) ∨ SpansOpen (inputMarks p.2)
  /-- With every action carried out, the open one is that of the client that has the input:
  any other registered client has been sent `Leave`. -/
  settled : s.turn.pending = [] → ∀ name e, s.base.hub.clients.get? name = some e →
    (s.turn.core.activeRemote = some name ↔ SpansOpen (inputMarks e.outbox))
      ∧ (s.turn.core.activeRemote ≠ some name ↔ Spans (inputMarks e.outbox))
  increasing : s.entered.Pairwise (· < ·)

/-- The router is told of a registration apart from the ones before it: it takes a
`Disconnected` of the active client only when that client is gone, and a client registers only
when the router neither regards the name as active nor has a message for it to queue. -/
def ToldApart (s : InputRun) : InputLabel → Prop
  | .hub (.registerInsert name _) =>
    s.turn.core.activeRemote ≠ some name ∧ messagesFor name s.turn.pending = []
  | .hubEvent =>
    match s.base.hub.events[s.seen]? with
    | some (.disconnected name) =>
      s.turn.core.activeRemote = some name → s.base.hub.contains name = false
    | _ => True
  | _ => True

instance (s : InputRun) (l : InputLabel) : Decidable (ToldApart s l) := by
  unfold ToldApart
  repeat' split
  all_goals infer_instance

/-! ## Handovers, client by client

A handover closes one client's span and opens another's. -/

/-- What is sent to a client is a message for it. -/
@[simp] theorem messageFor?_self (name : String) (msg : ServerMsg) :
    Action.messageFor? name (.send name msg) = some msg := if_pos rfl

/-- What is sent to a client is no message for another. -/
theorem messageFor?_other {name to_ : String} (h : to_ ≠ name) (msg : ServerMsg) :
    Action.messageFor? name (.send to_ msg) = none := if_neg h

/-- Input for the screen that has it lies inside that screen's session. -/
theorem inputMarks_input {screen : String} {acts : List Action}
    (h : ∀ a ∈ acts, a.IsInputFor screen) :
    ∀ m ∈ inputMarks (messagesFor screen acts), m = Mark.inside := by
  intro m hm
  obtain ⟨msg, hmsg, hmark⟩ := List.mem_filterMap.mp hm
  obtain ⟨a, ha, hfor⟩ := List.mem_filterMap.mp hmsg
  obtain ⟨msg', rfl, hinside⟩ := h a ha
  rw [messageFor?_self, Option.some.injEq] at hfor
  rw [← hfor, hinside, Option.some.injEq] at hmark
  exact hmark.symm

/-- Input for one client is none for another. -/
theorem messagesFor_other {screen name : String} (hne : screen ≠ name) {acts : List Action}
    (h : ∀ a ∈ acts, a.IsInputFor screen) : messagesFor name acts = [] := by
  refine List.filterMap_eq_nil_iff.mpr fun a ha => ?_
  obtain ⟨msg, rfl, -⟩ := h a ha
  exact messageFor?_other hne msg

/-- Input for a client enters none. -/
theorem enterSeqs_input {screen : String} {acts : List Action}
    (h : ∀ a ∈ acts, a.IsInputFor screen) : enterSeqs acts = [] := by
  refine List.filterMap_eq_nil_iff.mpr fun a ha => ?_
  obtain ⟨msg, rfl, hinside⟩ := h a ha
  cases msg <;> first | rfl | cases hinside

/-- The marks of two stretches follow each other. -/
theorem inputMarks_append (msgs msgs' : List ServerMsg) :
    inputMarks (msgs ++ msgs') = inputMarks msgs ++ inputMarks msgs' := List.filterMap_append

/-- The messages of two stretches follow each other. -/
theorem messagesFor_append (name : String) (acts acts' : List Action) :
    messagesFor name (acts ++ acts') = messagesFor name acts ++ messagesFor name acts' :=
  List.filterMap_append

/-- Input for the active screen leaves every client's session as it is. -/
theorem scan_input {screen : String} {acts : List Action}
    (h : ∀ a ∈ acts, a.IsInputFor screen) (name : String) :
    Mark.scan (decide (some screen = some name)) (inputMarks (messagesFor name acts))
      = some (decide (some screen = some name)) := by
  by_cases hname : screen = name
  · subst hname
    rw [decide_eq_true rfl]
    exact Mark.scan_inside (inputMarks_input h)
  · rw [messagesFor_other hname h, decide_eq_false fun e => hname (Option.some.inj e)]
    rfl

/-- `Leave` closes the session of the screen it is for, and no other one. -/
theorem scan_leave (screen name : String) (acts : List Action) (hacts : messagesFor name acts = []) :
    Mark.scan (decide (some screen = some name))
        (inputMarks (messagesFor name (.send screen .leave :: acts))) = some false := by
  have hcons : messagesFor name (.send screen .leave :: acts)
      = (Action.messageFor? name (.send screen .leave)).toList ++ messagesFor name acts := by
    unfold messagesFor
    rw [List.filterMap_cons]
    cases Action.messageFor? name (.send screen .leave) <;> rfl
  rw [hcons, hacts, List.append_nil]
  by_cases hname : screen = name
  · subst hname
    rw [decide_eq_true rfl, messageFor?_self]; rfl
  · rw [messageFor?_other hname, decide_eq_false fun e => hname (Option.some.inj e)]; rfl

/-- `Enter` opens the session of the screen it is for, and no other one. -/
theorem scan_enter (target name : String) (at_ : Point) (seq : Nat) :
    Mark.scan false (inputMarks (messagesFor name [.send target (.enter at_.x at_.y seq .empty)]))
      = some (decide (some target = some name)) := by
  by_cases hname : target = name
  · subst hname
    rw [decide_eq_true rfl]
    simp [messagesFor, inputMarks, ServerMsg.mark, Mark.advance]
  · rw [decide_eq_false fun e => hname (Option.some.inj e)]
    simp [messagesFor, messageFor?_other hname, inputMarks]

/-- **A handover's actions open and close the sessions of the clients it concerns**: from the
session being open exactly for the old active screen to exactly for the new one. -/
theorem Handover.scan {c c' : Core} {acts : List Action} (h : Handover c c' acts)
    (name : String) :
    Mark.scan (decide (c.activeRemote = some name)) (inputMarks (messagesFor name acts))
      = some (decide (c'.activeRemote = some name)) := by
  cases h with
  | keep hactive hseq hacts =>
    rw [hactive]
    cases hr : c.activeRemote with
    | none =>
      have hnil : acts = [] := by
        refine List.eq_nil_iff_forall_not_mem.mpr fun a ha => ?_
        obtain ⟨screen, hscreen, -⟩ := hacts a ha
        rw [hr] at hscreen
        cases hscreen
      rw [hnil]; rfl
    | some screen =>
      refine scan_input (fun a ha => ?_) name
      obtain ⟨screen', hscreen, ha⟩ := hacts a ha
      rw [hr, Option.some.injEq] at hscreen
      exact hscreen ▸ ha
  | enter target at_ hactive hactive' hseq =>
    rw [hactive, hactive']
    exact scan_enter target name at_ _
  | @hop screen next toEdge at_ hactive hactive' hne hseq hedge =>
    rw [hactive, hactive']
    -- the move to the edge, then `Leave`, then the `Enter` of the next screen
    have hsplit : [toEdge, .send screen .leave, .send next (.enter at_.x at_.y (c.seq + 1) .empty)]
        = [toEdge] ++ ([.send screen .leave]
          ++ [.send next (.enter at_.x at_.y (c.seq + 1) .empty)]) := rfl
    have hinput : ∀ a ∈ [toEdge], a.IsInputFor screen := fun a ha =>
      List.mem_singleton.mp ha ▸ hedge
    rw [hsplit, messagesFor_append, inputMarks_append, Mark.scan_append, scan_input hinput,
      messagesFor_append, inputMarks_append]
    show Mark.scan _ (_ ++ _) = _
    rw [Mark.scan_append, scan_leave screen name [] rfl]
    exact scan_enter next name at_ _
  | @home screen at_ input hactive hactive' hseq hinput =>
    rw [hactive, hactive', messagesFor_append, inputMarks_append, Mark.scan_append,
      scan_input hinput]
    exact scan_leave screen name [.capture (.ungrab at_)] rfl

/-- A failed grab closes the session of the client that had the input. -/
theorem onGrabFailed_scan (c : Core) (name : String) :
    Mark.scan (decide (c.activeRemote = some name))
        (inputMarks (messagesFor name c.onGrabFailed.2))
      = some (decide (c.onGrabFailed.1.activeRemote = some name)) := by
  cases hr : c.activeRemote with
  | none => rw [Core.onGrabFailed_local hr, hr]; rfl
  | some screen =>
    obtain ⟨hlocal, -, hacts⟩ := Core.onGrabFailed_remote hr
    rw [hacts, hlocal]
    exact scan_leave screen name [] rfl

/-- A handover sends the next `Enter` or none. -/
theorem Handover.seqs {c c' : Core} {acts : List Action} (h : Handover c c' acts) :
    (c'.seq = c.seq ∧ enterSeqs acts = [])
      ∨ (c'.seq = c.seq + 1 ∧ enterSeqs acts = [c.seq + 1]) := by
  cases h with
  | keep hactive hseq hacts =>
    refine .inl ⟨hseq, List.filterMap_eq_nil_iff.mpr fun a ha => ?_⟩
    obtain ⟨screen, -, hinput⟩ := hacts a ha
    exact List.filterMap_eq_nil_iff.mp
      (enterSeqs_input fun b hb => List.mem_singleton.mp hb ▸ hinput) a (List.mem_singleton_self a)
  | enter target at_ hactive hactive' hseq => exact .inr ⟨hseq, rfl⟩
  | @hop screen next toEdge at_ hactive hactive' hne hseq hedge =>
    obtain ⟨msg, rfl, hinside⟩ := hedge
    refine .inr ⟨hseq, ?_⟩
    cases msg <;> first | rfl | cases hinside
  | @home screen at_ input hactive hactive' hseq hinput =>
    refine .inl ⟨hseq, ?_⟩
    unfold enterSeqs
    rw [List.filterMap_append]
    exact (congrArg (· ++ _) (enterSeqs_input hinput)).trans rfl

/-! ## The invariant

Every client's queue, with the actions still to be sent, is a chain of spans, the last one open
for the active client only. -/

/-- What a registered client has been sent and is about to be sent is whole sessions, and one
more exactly when it has the input. The `Enter`s sent and about to be sent are numbered in
order, up to the core's own number. -/
structure InputInv (s : InputRun) : Prop where
  spans : ∀ name e, s.base.hub.clients.get? name = some e →
    Mark.scan false (inputMarks (e.outbox ++ messagesFor name s.turn.pending))
      = some (decide (s.turn.core.activeRemote = some name))
  past : ∀ p ∈ s.ended, (Mark.scan false (inputMarks p.2)).isSome = true
  increasing : (s.entered ++ enterSeqs s.turn.pending).Pairwise (· < ·)
  bounded : ∀ k ∈ s.entered ++ enterSeqs s.turn.pending, k ≤ s.turn.core.seq

/-- Taking an event keeps the invariant, if its actions open and close the sessions of the
registered clients and number their `Enter`s as a handover does. -/
theorem InputInv.take {s s' : InputRun} (h : InputInv s) {react : Core → Core × List Action}
    (htake : s.turn.take react = some s'.turn)
    (hscan : ∀ name, s.base.hub.contains name = true →
      Mark.scan (decide (s.turn.core.activeRemote = some name))
          (inputMarks (messagesFor name (react s.turn.core).2))
        = some (decide ((react s.turn.core).1.activeRemote = some name)))
    (hseqs : ((react s.turn.core).1.seq = s.turn.core.seq ∧ enterSeqs (react s.turn.core).2 = [])
      ∨ ((react s.turn.core).1.seq = s.turn.core.seq + 1
        ∧ enterSeqs (react s.turn.core).2 = [s.turn.core.seq + 1]))
    (hbase : s'.base = s.base) (hentered : s'.entered = s.entered) (hended : s'.ended = s.ended) :
    InputInv s' := by
  obtain ⟨hpending, hturn⟩ := Turn.take_eq htake
  obtain ⟨hspans, hover, hincreasing, hbounded⟩ := h
  have hnone : enterSeqs s.turn.pending = [] := by rw [hpending]; rfl
  rw [hnone, List.append_nil] at hincreasing hbounded
  constructor
  -- what a client has in its queue and what the reaction says to it
  · intro name e he
    rw [hbase] at he
    have hbefore := hspans name e he
    rw [hpending] at hbefore
    rw [hturn, inputMarks_append, Mark.scan_append,
      show inputMarks e.outbox = inputMarks (e.outbox ++ messagesFor name []) from
        congrArg inputMarks (List.append_nil _).symm, hbefore]
    exact hscan name ((Hub.contains_iff _ _).mpr ⟨e, he⟩)
  · rw [hended]; exact hover
  -- numbers of entering: none, or the next one
  · rw [hentered, hturn]
    rcases hseqs with ⟨-, hnil⟩ | ⟨-, hone⟩
    · rw [hnil, List.append_nil]; exact hincreasing
    · rw [hone, List.pairwise_append]
      refine ⟨hincreasing, List.pairwise_singleton _ _, ?_⟩
      intro a ha b hb
      rw [List.mem_singleton.mp hb]
      exact Nat.lt_succ_of_le (hbounded a ha)
  -- all of them at most the number reached
  · rw [hentered, hturn]
    intro k hk
    rcases hseqs with ⟨hsame, hnil⟩ | ⟨hnext, hone⟩
    · rw [hnil, List.append_nil] at hk
      rw [hsame]
      exact hbounded k hk
    · rw [hone] at hk
      rw [hnext]
      rcases List.mem_append.mp hk with hk | hk
      · exact Nat.le_succ_of_le (hbounded k hk)
      · exact Nat.le_of_eq (List.mem_singleton.mp hk)

/-- What a step of the hub does to an outbox: nothing, or it starts empty. -/
theorem HubStep.outbox {b b' : HubRun} {l : HubLabel} (h : HubStep b l b') {name : String}
    {e' : Entry ServerMsg} (he' : b'.hub.clients.get? name = some e') :
    (∃ e, b.hub.clients.get? name = some e ∧ e'.outbox = e.outbox)
      ∨ (∃ ms, l = .registerInsert name ms ∧ e'.outbox = []) := by
  cases h with
  | @registerInsert n ms hfree =>
    simp only [Dict.get?_put] at he'
    split at he'
    · next hn =>
      obtain rfl := Option.some.inj he'
      exact .inr ⟨ms, by rw [hn], rfl⟩
    · exact .inl ⟨e', he', rfl⟩
  | @monitorsNew sid n ms e hpc he =>
    simp only [Dict.get?_put] at he'
    split at he'
    · next hn =>
      obtain rfl := Option.some.inj he'
      exact .inl ⟨e, hn ▸ he, rfl⟩
    · exact .inl ⟨e', he', rfl⟩
  | @remove sid n hpc =>
    simp only [Dict.get?_drop] at he'
    split at he'
    · cases he'
    · exact .inl ⟨e', he', rfl⟩
  | checkOff hpc hoff => exact .inl ⟨e', he', rfl⟩
  | checkOn hpc hon => exact .inl ⟨e', he', rfl⟩
  | announce hpc => exact .inl ⟨e', he', rfl⟩
  | monitorsSame => exact .inl ⟨e', he', rfl⟩
  | sayGone hpc => exact .inl ⟨e', he', rfl⟩
  | flipSame => exact .inl ⟨e', he', rfl⟩
  | flipOff hadmin hon => exact .inl ⟨e', he', rfl⟩
  | flipOn hadmin hoff => exact .inl ⟨e', he', rfl⟩
  | tellNobody hadmin hgone => exact .inl ⟨e', he', rfl⟩
  | tellOff hadmin he => exact .inl ⟨e', he', rfl⟩
  | tellOn hadmin he => exact .inl ⟨e', he', rfl⟩
  | post hev => exact .inl ⟨e', he', rfl⟩

/-- The queue of a registration that ends was a registered client's. -/
theorem InputRun.ending_spec {b : HubRun} {l : HubLabel} {p : String × List ServerMsg}
    (hp : p ∈ ending b l) : ∃ e, b.hub.clients.get? p.1 = some e ∧ p.2 = e.outbox := by
  unfold ending at hp
  split at hp
  · split at hp
    · next name _ =>
      rw [Option.mem_toList, Option.map_eq_some_iff] at hp
      obtain ⟨e, he, rfl⟩ := hp
      exact ⟨e, he, rfl⟩
    · cases hp
  · cases hp

/-- Queueing one more message for a client. -/
theorem InputRun.queue_get? {s : InputRun} {name to_ : String} {msg : ServerMsg}
    {e' : Entry ServerMsg} (he' : (s.queue to_ msg).hub.clients.get? name = some e') :
    ∃ e, s.base.hub.clients.get? name = some e
      ∧ e'.outbox = e.outbox ++ (Action.messageFor? name (.send to_ msg)).toList := by
  rw [queue, Hub.send_get?] at he'
  by_cases hname : name = to_
  · rw [if_pos hname, Option.map_eq_some_iff] at he'
    obtain ⟨e, he, rfl⟩ := he'
    exact ⟨e, hname ▸ he, by rw [hname, messageFor?_self]; rfl⟩
  · rw [if_neg hname] at he'
    exact ⟨e', he', by rw [messageFor?_other (Ne.symm hname)]; exact (List.append_nil _).symm⟩

/-- Messages are picked one by one. -/
theorem messagesFor_cons (name : String) (a : Action) (acts : List Action) :
    messagesFor name (a :: acts) = (a.messageFor? name).toList ++ messagesFor name acts := by
  unfold messagesFor
  rw [List.filterMap_cons]
  cases a.messageFor? name <;> rfl

/-- Entries are picked one by one. -/
theorem enterSeqs_cons (a : Action) (acts : List Action) :
    enterSeqs (a :: acts) = a.enterSeq?.toList ++ enterSeqs acts := by
  unfold enterSeqs
  rw [List.filterMap_cons]
  cases a.enterSeq? <;> rfl

/-- A step of the hub: a client registers with nothing queued, and whoever goes leaves what was
queued for it. -/
theorem InputInv.hub_step {s s' : InputRun} {l : HubLabel} (h : InputInv s)
    (hok : ToldApart s (.hub l)) (hs : s.step (.hub l) = some s') : InputInv s' := by
  unfold InputRun.step at hs
  dsimp only at hs
  split at hs
  · cases hs
  · next base hstep =>
    obtain rfl := Option.some.inj hs
    refine ⟨fun name e' he' => ?_, fun p hp => ?_, h.increasing, h.bounded⟩
    · rcases (hubStep_of_step hstep).outbox he' with ⟨e, he, hsame⟩ | ⟨ms, rfl, hempty⟩
      · rw [hsame]
        exact h.spans name e he
      · obtain ⟨hinactive, hnone⟩ := hok
        rw [hempty]
        show Mark.scan false (inputMarks ([] ++ messagesFor name s.turn.pending)) = _
        rw [hnone, decide_eq_false hinactive]
        rfl
    · rcases List.mem_append.mp hp with hp | hp
      · exact h.past p hp
      · obtain ⟨e, he, hout⟩ := InputRun.ending_spec hp
        have hspan := h.spans p.1 e he
        rw [inputMarks_append, Mark.scan_append] at hspan
        rw [hout]
        cases hscan : Mark.scan false (inputMarks e.outbox) with
        | none => rw [hscan] at hspan; cases hspan
        | some b => rfl

/-- What others queue for a client marks no visit of the cursor. -/
theorem InputInv.traffic_step {s s' : InputRun} {name : String} {msg : ServerMsg} (h : InputInv s)
    (hs : s.step (.traffic name msg) = some s') : InputInv s' := by
  unfold InputRun.step at hs
  dsimp only at hs
  split at hs
  · cases hs
  · next hmark =>
    obtain rfl := Option.some.inj hs
    refine ⟨fun other e' he' => ?_, h.past, h.increasing, h.bounded⟩
    obtain ⟨e, he, hout⟩ := InputRun.queue_get? he'
    have hnone : inputMarks (Action.messageFor? other (.send name msg)).toList = [] := by
      by_cases hname : name = other
      · rw [hname, messageFor?_self]
        simp [inputMarks, hmark]
      · rw [messageFor?_other hname]
        rfl
    rw [hout, inputMarks_append, inputMarks_append, hnone, List.append_nil, ← inputMarks_append]
    exact h.spans other e he

/-- What the router makes of an event of the backend. -/
theorem InputInv.capture_step {s s' : InputRun} {ev : CaptureEvent} {nowMs : Nat} (h : InputInv s)
    (hs : s.step (.capture ev nowMs) = some s') : InputInv s' := by
  unfold InputRun.step at hs
  dsimp only at hs
  split at hs
  · cases hs
  · next turn htake =>
    obtain rfl := Option.some.inj hs
    by_cases hev : ev = .grabFailed
    · subst hev
      refine h.take htake (fun name _ => onGrabFailed_scan _ name) ?_ rfl rfl rfl
      show (s.turn.core.onGrabFailed.1.seq = _ ∧ enterSeqs s.turn.core.onGrabFailed.2 = []) ∨ _
      cases hr : s.turn.core.activeRemote with
      | none => rw [Core.onGrabFailed_local hr]; exact .inl ⟨rfl, rfl⟩
      | some screen =>
        obtain ⟨-, hseq, hacts⟩ := Core.onGrabFailed_remote hr
        rw [hacts]
        exact .inl ⟨hseq, rfl⟩
    · have hhand := Core.handle_handover s.turn.core hev nowMs
      exact h.take htake (fun name _ => hhand.scan name) hhand.seqs rfl rfl rfl

/-- What the router makes of an event of the hub: the active client it takes for gone is no longer
registered. -/
theorem InputInv.hubEvent_step {s s' : InputRun} (h : InputInv s) (hok : ToldApart s .hubEvent)
    (hs : s.step .hubEvent = some s') : InputInv s' := by
  unfold InputRun.step at hs
  dsimp only at hs
  split at hs
  · cases hs
  · next ev hevent =>
    split at hs
    · cases hs
    · next turn htake =>
      obtain rfl := Option.some.inj hs
      rcases s.turn.core.onHubEvent_cases ev with ⟨name, rfl, hactive⟩ | ⟨hsame, hseq, hacts⟩
      · obtain ⟨hlocal, hseq, warp, hacts⟩ := Core.clientDisconnected_active hactive
        have hunregistered : s.base.hub.contains name = false := by
          simpa [ToldApart, hevent, hactive] using hok
        refine h.take htake (fun other hother => ?_) (.inl ⟨hseq, ?_⟩) rfl rfl rfl
        · have hne : name ≠ other := by
            rintro rfl
            rw [hunregistered] at hother
            cases hother
          show Mark.scan _ (inputMarks (messagesFor other (s.turn.core.clientDisconnected name).2))
            = some (decide ((s.turn.core.clientDisconnected name).1.activeRemote = some other))
          rw [hacts, hlocal, hactive, decide_eq_false fun e => hne (Option.some.inj e)]
          rfl
        · show enterSeqs (s.turn.core.clientDisconnected name).2 = []
          rw [hacts]
          rfl
      · refine h.take htake (fun other _ => ?_) (.inl ⟨hseq, by rw [hacts]; rfl⟩) rfl rfl rfl
        rw [hacts, hsame]
        rfl

/-- The router finds a client gone while it sends: what is left to send is for others, and if the
cursor was there it comes home. -/
theorem InputInv.vanished {s : InputRun} {to_ : String} {msg : ServerMsg} {rest : List Action}
    (h : InputInv s) (hp : s.turn.pending = .send to_ msg :: rest)
    (hgone : s.base.hub.contains to_ = false) :
    InputInv { s with
      turn := ⟨(s.turn.core.clientDisconnected to_).1,
        rest ++ (s.turn.core.clientDisconnected to_).2⟩ } := by
  obtain ⟨hspans, hover, hincreasing, hbounded⟩ := h
  rw [hp, enterSeqs_cons] at hincreasing hbounded
  -- what was for the client that vanished is for nobody registered
  have hother : ∀ name e, s.base.hub.clients.get? name = some e →
      to_ ≠ name ∧ messagesFor name s.turn.pending = messagesFor name rest := by
    intro name e he
    have hne : to_ ≠ name := by
      rintro rfl
      rw [(Hub.contains_iff _ _).mpr ⟨e, he⟩] at hgone
      cases hgone
    refine ⟨hne, ?_⟩
    rw [hp, messagesFor_cons, messageFor?_other hne]
    rfl
  have hsub : (s.entered ++ enterSeqs rest).Sublist
      (s.entered ++ ((Action.send to_ msg).enterSeq?.toList ++ enterSeqs rest)) :=
    (List.Sublist.refl _).append (List.sublist_append_right _ _)
  have hinc := hincreasing.sublist hsub
  have hbound := fun k hk => hbounded k (hsub.subset hk)
  by_cases hactive : s.turn.core.activeRemote = some to_
  · obtain ⟨hlocal, hseq, warp, hacts⟩ := Core.clientDisconnected_active hactive
    have hseqs : enterSeqs (rest ++ (s.turn.core.clientDisconnected to_).2)
        = enterSeqs rest := by
      unfold enterSeqs
      rw [hacts, List.filterMap_append]
      exact List.append_nil _
    refine ⟨fun name e he => ?_, hover, ?_, ?_⟩
    · obtain ⟨hne, hsame⟩ := hother name e he
      have hspan := hspans name e he
      rw [hsame, hactive, decide_eq_false fun e => hne (Option.some.inj e)] at hspan
      dsimp only
      rw [hacts, hlocal, messagesFor_append]
      exact (congrArg (fun xs => Mark.scan false (inputMarks (e.outbox ++ xs)))
        (List.append_nil _)).trans hspan
    · dsimp only
      rw [hseqs]
      exact hinc
    · dsimp only
      rw [hseqs, hseq]
      exact hbound
  · obtain ⟨hsame, hseq, hacts⟩ := Core.clientDisconnected_other hactive
    refine ⟨fun name e he => ?_, hover, ?_, ?_⟩
    · dsimp only
      rw [hacts, hsame, List.append_nil, ← (hother name e he).2]
      exact hspans name e he
    · dsimp only
      rw [hacts, List.append_nil]
      exact hinc
    · dsimp only
      rw [hacts, hseq, List.append_nil]
      exact hbound

/-- The router acts: a command reaches no client, and a message is queued for one that is
registered. -/
theorem InputInv.act_step {s s' : InputRun} (h : InputInv s) (hs : s.step .act = some s') :
    InputInv s' := by
  unfold InputRun.step at hs
  dsimp only at hs
  cases hact : s.turn.act s.base.hub.contains with
  | none => rw [hact] at hs; cases hs
  | some outcome =>
    obtain ⟨turn, effect⟩ := outcome
    rw [hact] at hs
    cases Turn.acts_of_act hact with
    | @command cmd rest hp =>
      obtain rfl := Option.some.inj hs
      obtain ⟨hspans, hover, hincreasing, hbounded⟩ := h
      have hseqs : enterSeqs s.turn.pending = enterSeqs rest := by rw [hp, enterSeqs_cons]; rfl
      rw [hseqs] at hincreasing hbounded
      refine ⟨fun name e he => ?_, hover, hincreasing, hbounded⟩
      have := hspans name e he
      rw [hp, messagesFor_cons] at this
      exact this
    | @sent to_ msg rest hp hok =>
      obtain rfl := Option.some.inj hs
      obtain ⟨hspans, hover, hincreasing, hbounded⟩ := h
      rw [hp, enterSeqs_cons, ← List.append_assoc] at hincreasing hbounded
      refine ⟨fun name e' he' => ?_, hover, hincreasing, hbounded⟩
      obtain ⟨e, he, hout⟩ := InputRun.queue_get? he'
      have := hspans name e he
      rw [hp, messagesFor_cons, ← List.append_assoc] at this
      rw [hout]
      exact this
    | @vanished to_ msg rest hp hok =>
      obtain rfl := Option.some.inj hs
      exact h.vanished hp hok

/-- **One step keeps the invariant.** -/
theorem inputInv_step {s s' : InputRun} {l : InputLabel} (h : InputInv s) (hok : ToldApart s l)
    (hs : s.step l = some s') : InputInv s' := by
  cases l with
  | hub l => exact h.hub_step hok hs
  | traffic name msg => exact h.traffic_step hs
  | capture ev nowMs => exact h.capture_step hs
  | hubEvent => exact h.hubEvent_step hok hs
  | act => exact h.act_step hs

/-- At the start nothing has been sent. -/
theorem inputInv_start (core : Core) (added : List String)
    (disabled : Finset String) :
    InputInv { base := HubRun.start added disabled, turn := ⟨core, []⟩ } where
  spans name e he := by simp [HubRun.start] at he
  past p hp := nomatch hp
  increasing := .nil
  bounded k hk := nomatch hk

/-- **The invariant holds in every state of a run whose steps tell registrations apart.** -/
theorem inputInv_reach {s : InputRun} (hs : inputRuns.Reach ToldApart s) : InputInv s := by
  refine Lts.Reach.invariant (P := InputInv) ?_ ?_ hs
  · rintro _ ⟨core, added, disabled, -, rfl⟩
    exact inputInv_start core added disabled
  · intro _ _ _ _ ih hok hl
    exact inputInv_step ih hok hl

/-- Marks the recogniser accepts are whole spans, or whole spans and an open one. -/
theorem spans_or_open {ms : List Mark} (h : (Mark.scan false ms).isSome = true) :
    Spans ms ∨ SpansOpen ms := by
  obtain ⟨b, hb⟩ := Option.isSome_iff_exists.mp h
  cases b with
  | false => exact .inl (Mark.scan_closed_iff.mp hb)
  | true => exact .inr (Mark.scan_open_iff.mp hb)

/-- **What is queued for a client during one registration is lawful**, in every run in which
the router is told of registrations apart. -/
theorem input_sessions_lawful {s : InputRun} (hs : inputRuns.Reach ToldApart s) : s.Lawful := by
  obtain ⟨hspans, hover, hincreasing, hbounded⟩ := inputInv_reach hs
  refine ⟨fun name e he => ?_, fun p hp => spans_or_open (hover p hp), fun hrest name e he => ?_,
    (List.pairwise_append.mp hincreasing).1⟩
  · refine spans_or_open ?_
    have hspan := hspans name e he
    rw [inputMarks_append, Mark.scan_append] at hspan
    cases hscan : Mark.scan false (inputMarks e.outbox) with
    | none => rw [hscan] at hspan; cases hspan
    | some b => rfl
  · have hspan := hspans name e he
    rw [hrest, show messagesFor name [] = [] from rfl, List.append_nil] at hspan
    rw [← Mark.scan_open_iff, ← Mark.scan_closed_iff, hspan]
    by_cases hactive : s.turn.core.activeRemote = some name
    · simp [hactive]
    · simp [hactive]

/-- The input goes to "b", comes home, and goes to "b" again after it has reconnected. -/
theorem input_sessions_lawful_twice :
    ∃ s, inputRuns.Reach ToldApart s ∧ s.entered = [1, 2] ∧ s.Lawful := by
  let screen : Rect := ⟨0, 0, 1280, 720⟩
  let labels : List InputLabel :=
    [.hub (.registerInsert "b" [screen]), .hub (.check 0), .hub (.announce 0), .hubEvent,
      .capture .hotkey 0, .act, .act, .capture (.motion 5 5) 1, .act,
      .capture .hotkey 2, .act, .act,
      .hub (.remove 0), .hub (.sayGone 0), .hubEvent,
      .hub (.registerInsert "b" [screen]), .hub (.check 1), .hub (.announce 1), .hubEvent,
      .capture .hotkey 3, .act, .act]
  have hend : (inputRuns.exec ToldApart
      { base := HubRun.start [] ∅, turn := ⟨Core.twoScreens, []⟩ } labels).map (·.entered)
      = some [1, 2] := by decide +kernel
  obtain ⟨s, hs, hentered⟩ := Option.map_eq_some_iff.mp hend
  have hreach : inputRuns.Reach ToldApart s :=
    Lts.reach_of_exec ⟨_, [], ∅, Core.twoScreens_isNew, rfl⟩ hs
  exact ⟨s, hreach, hentered, input_sessions_lawful hreach⟩

/-- "b" has the input when it is turned off. The router takes it for gone: it releases the
devices and sends "b", which is still registered, no `Leave`. -/
theorem disabled_while_active_gets_no_leave : ¬ ∀ s, inputRuns.Reachable s → s.Lawful := by
  -- "b" becomes the active screen and is then turned off
  let labels : List InputLabel :=
    [.hub (.registerInsert "b" [⟨0, 0, 1280, 720⟩]), .hub (.check 0), .hub (.announce 0), .hubEvent,
      .capture .hotkey 0, .act, .act,
      .hub (.flip "b" true), .hub .tell, .hubEvent, .act]
  intro hall
  have hend : (inputRuns.run
      { base := HubRun.start [] ∅, turn := ⟨Core.twoScreens, []⟩ } labels).map
      (fun s => (s.turn.pending, s.turn.core.activeRemote,
        (s.base.hub.clients.get? "b").map fun e => Mark.scan false (inputMarks e.outbox)))
      = some ([], none, some (some true)) := by decide +kernel
  obtain ⟨s, hs, hstate⟩ := Option.map_eq_some_iff.mp hend
  simp only [Prod.mk.injEq, Option.map_eq_some_iff] at hstate
  obtain ⟨hrest, hlocal, e, he, hopen⟩ := hstate
  have hlawful := hall s (Lts.reachable_of_run ⟨_, [], ∅, Core.twoScreens_isNew, rfl⟩ hs)
  -- a settled run would have told it to leave
  have hclosed := (hlawful.settled hrest "b" e he).2.mp (by rw [hlocal]; nofun)
  rw [← Mark.scan_closed_iff, hopen] at hclosed
  cases hclosed

end GeserDesk
