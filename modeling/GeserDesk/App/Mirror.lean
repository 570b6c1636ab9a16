import GeserDesk.App.Session

/-!
# The window's view of the session

The status of the session on its way to the window: `attached` of the desktop app's `link.rs`, the
reader of a `Remote` with its channel of events (`geserdesk-app/src/control/remote.rs`), and the
daemon's end of the connection (`converse`, `next_event` and `Subscribe` of `service.rs`). The window
subscribes, asks for the status once, and from then on hears of every change; log lines and the rest
go through the same channel, and a reader that falls behind loses the oldest of what it holds.

* **`status_mirrored`**: once all has arrived and is heard, the window shows the session's status, in
  every run in which its one question is answered and no status falls out of the channel.
* **`status_falls_out`**: a status behind which the channel fills up does.
-/

namespace GeserDesk

/-- What the daemon writes. An event is a status or something else. -/
inductive MirrorLine where
  /-- The answer to `Subscribe`. -/
  | done
  /-- The answer to `Status`. -/
  | status (status : Status)
  | event (status : Option Status)
deriving DecidableEq, Repr

inductive MirrorRequest where
  | subscribe
  | status
deriving DecidableEq, Repr

/-- Where `attached` is. -/
inductive MirrorPc where
  | subscribing
  | asking
  | mirroring
deriving DecidableEq, Repr

structure MirrorRun where
  /-- Of the session. -/
  status : Status := .stopped
  subscribed : Bool := false
  /-- The status was set since the connection last read it. -/
  unseen : Bool := false
  up : List MirrorRequest := [.subscribe]
  down : List MirrorLine := []
  pc : MirrorPc := .subscribing
  /-- The answer that `attached` waits for. -/
  answer : Option MirrorLine := none
  /-- The channel of events, as its receiver has it. -/
  events : List (Option Status) := []
  shown : Status := .stopped
  /-- What the daemon answered (bookkeeping only). -/
  replied : Option Status := none
deriving DecidableEq, Repr

inductive MirrorLabel where
  | set (status : Status)
  /-- The daemon takes a request. -/
  | serve
  /-- `next_event`: the status has changed. -/
  | tell
  /-- `next_event`: a log line, a question, a report. -/
  | tellOther
  /-- The reader takes a line. -/
  | read
  | goOn
  /-- Nobody answers in time. -/
  | timesOut
  | hear
deriving DecidableEq, Repr

namespace MirrorRun

/-- A broadcast channel: when it is full the oldest goes. -/
def push (capacity : Nat) (events : List (Option Status)) (e : Option Status) :
    List (Option Status) :=
  if events.length < capacity then events ++ [e] else events.tail ++ [e]

def step (capacity : Nat) (s : MirrorRun) : MirrorLabel → Option MirrorRun
  | .set status => some { s with status := status, unseen := true }
  | .serve =>
    match s.up with
    | .subscribe :: up =>
      -- changes from now on only
      some { s with up := up, subscribed := true, unseen := false, down := s.down ++ [.done] }
    | .status :: up =>
      some { s with up := up, down := s.down ++ [.status s.status], replied := some s.status }
    | [] => none
  | .tell =>
    if s.subscribed ∧ s.unseen then
      some { s with unseen := false, down := s.down ++ [.event (some s.status)] }
    else none
  | .tellOther => if s.subscribed then some { s with down := s.down ++ [.event none] } else none
  | .read =>
    match s.down with
    | .event e :: down => some { s with down := down, events := push capacity s.events e }
    | line :: down =>
      if s.pc = .mirroring then some { s with down := down }
      else some { s with down := down, answer := some line }
    | [] => none
  | .goOn =>
    match s.pc, s.answer with
    | .subscribing, some .done =>
      some { s with pc := .asking, answer := none, up := s.up ++ [.status] }
    | .asking, some (.status status) =>
      some { s with pc := .mirroring, answer := none, shown := status }
    | _, _ => none
  | .timesOut =>
    if s.pc = .asking ∧ s.answer = none then some { s with pc := .mirroring, shown := .stopped }
    else none
  | .hear =>
    match s.pc, s.events with
    | .mirroring, some status :: events => some { s with events := events, shown := status }
    | .mirroring, none :: events => some { s with events := events }
    | _, _ => none

/-- The status that falls out of the channel when the next line is read. -/
def fallsOut (capacity : Nat) (s : MirrorRun) : Option Status :=
  match s.down with
  | .event _ :: _ => if s.events.length < capacity then none else s.events.head?.join
  | _ => none

/-- The question is answered, and what falls out of the channel is no status. -/
def Heard (capacity : Nat) (s : MirrorRun) : MirrorLabel → Prop
  | .timesOut => False
  | .read => s.fallsOut capacity = none
  | _ => True

end MirrorRun

def mirrorRuns (capacity : Nat) : Lts MirrorRun MirrorLabel where
  init s := ∃ status, s = { status := status }
  step := MirrorRun.step capacity

/-! ## What is on its way

The statuses on their way to the window, from the daemon's line, from the buffer of the reader,
and from the answer it starts with. The newest of them all is the status the daemon has now. -/

def MirrorLine.told : MirrorLine → Option Status
  | .event e => e
  | _ => none

namespace MirrorRun

/-- The statuses on their way, in the order in which they are heard. -/
def coming (s : MirrorRun) : List Status := s.events.filterMap id ++ s.down.filterMap MirrorLine.told

/-- What is shown before these: what is shown, or will be when the answer is there. -/
def base (s : MirrorRun) : Option Status :=
  if s.pc = .mirroring then some s.shown else s.replied

/-- What one more line adds. -/
theorem coming_append (s t : MirrorRun) (line : MirrorLine) (hevents : t.events = s.events)
    (hdown : t.down = s.down ++ [line]) : t.coming = s.coming ++ line.told.toList := by
  have hone : [line].filterMap MirrorLine.told = line.told.toList := by
    cases htold : line.told <;> simp [htold]
  unfold coming
  rw [hevents, hdown, List.filterMap_append, hone, List.append_assoc]

structure Inv (s : MirrorRun) : Prop where
  up : s.up = [] ∨ (s.up = [.subscribe] ∧ s.pc = .subscribing ∧ s.subscribed = false)
    ∨ (s.up = [.status] ∧ s.pc = .asking ∧ s.replied = none)
  /-- Before the daemon has heard of it nothing comes. -/
  before : s.subscribed = false → s.coming = [] ∧ s.pc = .subscribing
  early : s.pc = .subscribing → s.replied = none
  done : .done ∈ s.down ∨ s.answer = some .done → s.subscribed = true
  status : ∀ status, .status status ∈ s.down ∨ s.answer = some (.status status) →
    s.replied = some status
  /-- With nothing left to tell, what comes last is the session's status. -/
  fresh : s.subscribed = true → s.unseen = false →
    ∀ last, (s.base.toList ++ s.coming).getLast? = some last → last = s.status

/-- An event more in the buffer is the last of those told; one pushed out at the front told nothing.
-/
theorem filterMap_push {capacity : Nat} {events : List (Option Status)} (e : Option Status)
    (h : ¬events.length < capacity → events.head?.join = none) :
    (push capacity events e).filterMap id = events.filterMap id ++ e.toList := by
  have hone : [e].filterMap id = e.toList := by cases e <;> rfl
  unfold push
  split
  · rw [List.filterMap_append, hone]
  · next hfull =>
    rw [List.filterMap_append, hone]
    -- what falls out is no status
    cases events with
    | nil => rfl
    | cons first rest =>
      obtain rfl : first = none := h hfull
      rfl

/-- At the start the window shows what is. -/
theorem inv_start (status : Status) : ({ status := status } : MirrorRun).Inv where
  up := .inr (.inl ⟨rfl, rfl, rfl⟩)
  before := fun _ => ⟨rfl, rfl⟩
  early := fun _ => rfl
  done := fun h => by rcases h with h | h <;> cases h
  status := fun _ h => by rcases h with h | h <;> cases h
  fresh := fun h => by cases h

variable {s s' : MirrorRun} {capacity : Nat}

/-- A subscription begins with the status of now. -/
theorem Inv.serve (h : s.Inv) (hl : s.step capacity .serve = some s') : s'.Inv := by
  simp only [step] at hl
  split at hl
  · next up hup =>
    have hs' := (Option.some.inj hl).symm
    -- what is left to serve decides where the reader is: it has just asked to subscribe
    rcases h.up with hnil | ⟨hone, hpc, hsub⟩ | ⟨hone, -, -⟩
    · rw [hnil] at hup
      cases hup
    · rw [hone] at hup
      obtain ⟨-, rfl⟩ := List.cons.inj hup
      -- nothing is in its buffer yet
      have hcoming : s'.coming = s.coming ++ [] :=
        coming_append s s' .done (by rw [hs']) (by rw [hs'])
      rw [(h.before hsub).1] at hcoming
      have hreplied := h.early hpc
      have hbase : s'.base = none := by
        rw [hs']
        simp [base, hpc, hreplied]
      have hdown : s'.down = s.down ++ [.done] := by rw [hs']
      have hanswer : s'.answer = s.answer := by rw [hs']
      refine ⟨.inl (by rw [hs']), fun hno => ?_, fun _ => ?_, fun _ => by rw [hs'],
        fun status hin => ?_, fun _ _ last hlast => ?_⟩
      · rw [hs'] at hno
        cases hno
      · rw [hs']
        exact hreplied
      · rw [hdown, hanswer] at hin
        rw [hs']
        exact h.status status (hin.imp_left fun hmem => by simpa using hmem)
      · rw [hbase, hcoming] at hlast
        cases hlast
    · rw [hone] at hup
      cases hup
  -- or it asks for the status
  · next up hup =>
    have hs' := (Option.some.inj hl).symm
    rcases h.up with hnil | ⟨hone, -, -⟩ | ⟨hone, hpc, hreplied⟩
    · rw [hnil] at hup
      cases hup
    · rw [hone] at hup
      cases hup
    · rw [hone] at hup
      obtain ⟨-, rfl⟩ := List.cons.inj hup
      -- it can only have asked once it was subscribed
      have hsub : s.subscribed = true := by
        by_contra hno
        have hearly := (h.before (by simpa using hno)).2
        rw [hpc] at hearly
        cases hearly
      have hnostatus : ∀ status, ¬(.status status ∈ s.down ∨ s.answer = some (.status status)) := by
        intro status hin
        have hsome := h.status status hin
        rw [hreplied] at hsome
        cases hsome
      have hcoming : s'.coming = s.coming ++ [] :=
        coming_append s s' (.status s.status) (by rw [hs']) (by rw [hs'])
      rw [List.append_nil] at hcoming
      -- until the answer comes it has nothing to start from
      have hbase : s.base = none := by simp [base, hpc, hreplied]
      have hbase' : s'.base = some s.status := by
        rw [hs']
        simp [base, hpc]
      have hstatus : s'.status = s.status := by rw [hs']
      have hpc' : s'.pc = .asking := by rw [hs', ← hpc]
      have hsub' : s'.subscribed = true := by rw [hs', ← hsub]
      have hdown : s'.down = s.down ++ [.status s.status] := by rw [hs']
      have hanswer : s'.answer = s.answer := by rw [hs']
      refine ⟨.inl (by rw [hs']), fun hno => ?_, fun hearly => ?_, fun _ => hsub',
        fun status hin => ?_, fun _ hunseen last hlast => ?_⟩
      · rw [hsub'] at hno
        cases hno
      · rw [hpc'] at hearly
        cases hearly
      · rw [hdown, hanswer] at hin
        rcases hin with hin | hin
        · rcases List.mem_append.mp hin with hin | hin
          · exact absurd (.inl hin) (hnostatus status)
          · obtain rfl : status = s.status := by simpa using hin
            rw [hs']
        · exact absurd (.inr hin) (hnostatus status)
      -- the status now is the last of those coming, if any are
      · rw [hbase', hcoming] at hlast
        have hfresh := h.fresh hsub (by rw [hs'] at hunseen; exact hunseen)
        rw [hbase] at hfresh
        rw [hstatus]
        cases hlist : s.coming with
        | nil =>
          rw [hlist] at hlast
          exact (Option.some.inj hlast).symm
        | cons first rest =>
          rw [hlist] at hlast hfresh
          exact hfresh last (by simpa [List.getLast?_cons_cons] using hlast)
  · cases hl

/-- Lines that tell nothing new are of no account. -/
theorem Inv.congr (h : s.Inv) (hup : s'.up = s.up) (hpc : s'.pc = s.pc)
    (hsub : s'.subscribed = s.subscribed) (hreplied : s'.replied = s.replied)
    (hdone : .done ∈ s'.down ∨ s'.answer = some .done → .done ∈ s.down ∨ s.answer = some .done)
    (hstatus : ∀ status, .status status ∈ s'.down ∨ s'.answer = some (.status status) →
      .status status ∈ s.down ∨ s.answer = some (.status status))
    (hbefore : s.subscribed = false → s'.coming = s.coming)
    (hfresh : s.subscribed = true → s'.unseen = false →
      ∀ last, (s'.base.toList ++ s'.coming).getLast? = some last → last = s'.status) : s'.Inv where
  up := by rw [hup, hpc, hsub, hreplied]; exact h.up
  before := fun hno => by
    rw [hsub] at hno
    rw [hbefore hno, hpc]
    exact h.before hno
  early := by rw [hpc, hreplied]; exact h.early
  done := fun hin => hsub.trans (h.done (hdone hin))
  status := fun status hin => hreplied.trans (h.status status (hstatus status hin))
  fresh := fun hyes => hfresh (hsub.symm.trans hyes)

/-- A status that is told is in the buffer. -/
theorem Inv.tell (h : s.Inv) (hl : s.step capacity .tell = some s') : s'.Inv := by
  simp only [step] at hl
  split_ifs at hl with hunseen
  have hs' := (Option.some.inj hl).symm
  have hcoming : s'.coming = s.coming ++ [s.status] :=
    coming_append s s' (.event (some s.status)) (by rw [hs']) (by rw [hs'])
  have hstatus : s'.status = s.status := by rw [hs']
  have hdown : s'.down = s.down ++ [.event (some s.status)] := by rw [hs']
  have hanswer : s'.answer = s.answer := by rw [hs']
  refine h.congr (by rw [hs']) (by rw [hs']) (by rw [hs']) (by rw [hs']) (fun hin => ?_)
    (fun status hin => ?_) (fun hno => ?_) fun _ _ last hlast => ?_
  · rw [hdown, hanswer] at hin
    simpa using hin
  · rw [hdown, hanswer] at hin
    simpa using hin
  · rw [hunseen.1] at hno
    cases hno
  · -- the change that is told now comes last
    rw [hcoming, ← List.append_assoc, List.getLast?_concat] at hlast
    exact (Option.some.inj hlast).symm.trans hstatus.symm

/-- Another event tells nothing of the status. -/
theorem Inv.tellOther (h : s.Inv) (hl : s.step capacity .tellOther = some s') : s'.Inv := by
  simp only [step] at hl
  split_ifs at hl with hsub
  have hs' := (Option.some.inj hl).symm
  have hcoming : s'.coming = s.coming ++ [] :=
    coming_append s s' (.event none) (by rw [hs']) (by rw [hs'])
  rw [List.append_nil] at hcoming
  have hdown : s'.down = s.down ++ [.event none] := by rw [hs']
  have hanswer : s'.answer = s.answer := by rw [hs']
  refine h.congr (by rw [hs']) (by rw [hs']) (by rw [hs']) (by rw [hs']) (fun hin => ?_)
    (fun status hin => ?_) (fun _ => hcoming) ?_
  · rw [hdown, hanswer] at hin
    simpa using hin
  · rw [hdown, hanswer] at hin
    simpa using hin
  · rw [hcoming]
    subst hs'
    exact h.fresh

/-- Reading takes the oldest event of the buffer. -/
theorem Inv.read (h : s.Inv) (hok : s.Heard capacity .read)
    (hl : s.step capacity .read = some s') : s'.Inv := by
  simp only [step] at hl
  -- a pushed status goes to the buffer, which may drop its oldest
  split at hl
  · next e down hdown =>
    obtain rfl := Option.some.inj hl
    have hkept : ¬s.events.length < capacity → s.events.head?.join = none := by
      intro hfull
      have hout : s.fallsOut capacity = none := hok
      simpa only [fallsOut, hdown, if_neg hfull] using hout
    -- what is still coming is the same, as the dropped place was empty already
    have hcoming : coming { s with down := down, events := push capacity s.events e }
        = s.coming := by
      unfold coming
      rw [filterMap_push e hkept, hdown]
      cases e with
      | none =>
        have htold : (MirrorLine.event none).told = none := rfl
        simp [List.filterMap_cons_none htold]
      | some status => simp [MirrorLine.told]
    refine h.congr rfl rfl rfl rfl (fun hin => ?_) (fun status hin => ?_) (fun _ => hcoming) ?_
    · exact hin.imp_left fun hin => hdown ▸ List.mem_cons_of_mem _ hin
    · exact hin.imp_left fun hin => hdown ▸ List.mem_cons_of_mem _ hin
    · rw [hcoming]
      exact h.fresh
  -- any other line is no status
  · next line down hother hdown =>
    have htold : line.told = none := by
      cases line with
      | done => rfl
      | status status => rfl
      | event e => exact absurd rfl (hother e)
    have hcoming : s.coming = s.events.filterMap id ++ down.filterMap MirrorLine.told := by
      unfold coming
      rw [hdown, List.filterMap_cons_none htold]
    -- an answer the reader waits for, or one it does not
    split_ifs at hl with hpc
    · obtain rfl := Option.some.inj hl
      refine h.congr rfl rfl rfl rfl (fun hin => ?_) (fun status hin => ?_)
        (fun _ => hcoming.symm) ?_
      · exact hin.imp_left fun hin => hdown ▸ List.mem_cons_of_mem _ hin
      · exact hin.imp_left fun hin => hdown ▸ List.mem_cons_of_mem _ hin
      · have hfresh := h.fresh
        rw [hcoming] at hfresh
        exact hfresh
    · obtain rfl := Option.some.inj hl
      refine h.congr rfl rfl rfl rfl (fun hin => ?_) (fun status hin => ?_)
        (fun _ => hcoming.symm) ?_
      · rcases hin with hin | hin
        · exact .inl (hdown ▸ List.mem_cons_of_mem _ hin)
        · exact .inl (hdown ▸ Option.some.inj hin ▸ List.mem_cons_self)
      · rcases hin with hin | hin
        · exact .inl (hdown ▸ List.mem_cons_of_mem _ hin)
        · exact .inl (hdown ▸ Option.some.inj hin ▸ List.mem_cons_self)
      · have hfresh := h.fresh
        rw [hcoming] at hfresh
        exact hfresh
  · cases hl

/-- A reader that lost its place catches up with the buffer. -/
theorem Inv.goOn (h : s.Inv) (hl : s.step capacity .goOn = some s') : s'.Inv := by
  simp only [step] at hl
  split at hl
  -- it hears that it is subscribed, and asks for the status
  · next hpc hanswer =>
    obtain rfl := Option.some.inj hl
    have hsub := h.done (.inr hanswer)
    have hreplied := h.early hpc
    -- what it asked first was answered
    have hup : s.up = [] := by
      rcases h.up with hnil | ⟨-, -, hno⟩ | ⟨-, hasking, -⟩
      · exact hnil
      · rw [hsub] at hno
        cases hno
      · rw [hpc] at hasking
        cases hasking
    have hfresh := h.fresh
    have hbase : s.base = s.replied := by simp [base, hpc]
    rw [hbase] at hfresh
    refine ⟨.inr (.inr ⟨by rw [hup]; rfl, rfl, hreplied⟩), fun hno => ?_, nofun,
      fun hin => hsub, fun status hin => ?_, hfresh⟩
    · rw [hsub] at hno
      cases hno
    · exact h.status status (hin.imp_right nofun)
  -- it hears the status, and starts from that
  · next status hpc hanswer =>
    obtain rfl := Option.some.inj hl
    have hreplied := h.status status (.inr hanswer)
    have hsub : s.subscribed = true := by
      by_contra hno
      have hearly := (h.before (by simpa using hno)).2
      rw [hpc] at hearly
      cases hearly
    -- nothing it asked is open
    have hup : s.up = [] := by
      rcases h.up with hnil | ⟨-, hsubscribing, -⟩ | ⟨-, -, hnone⟩
      · exact hnil
      · rw [hpc] at hsubscribing
        cases hsubscribing
      · rw [hreplied] at hnone
        cases hnone
    have hfresh := h.fresh
    have hbase : s.base = some status := by simp [base, hpc, hreplied]
    rw [hbase] at hfresh
    refine ⟨.inl hup, fun hno => ?_, nofun, fun _ => hsub, fun status' hin => ?_, hfresh⟩
    · rw [hsub] at hno
      cases hno
    · exact h.status status' (hin.imp_right nofun)
  · cases hl

/-- The window shows what it hears. -/
theorem Inv.hear (h : s.Inv) (hl : s.step capacity .hear = some s') : s'.Inv := by
  simp only [step] at hl
  split at hl
  · next status events hpc hevents =>
    obtain rfl := Option.some.inj hl
    have hcoming : s.coming
        = status :: (events.filterMap id ++ s.down.filterMap MirrorLine.told) := by
      unfold coming
      rw [hevents]
      rfl
    have hbase : s.base = some s.shown := if_pos hpc
    refine h.congr rfl rfl rfl rfl id (fun _ => id) (fun hno => ?_) fun hsub hunseen last hlast => ?_
    · have hnil := (h.before hno).1
      rw [hcoming] at hnil
      cases hnil
    · have hfresh := h.fresh hsub hunseen last
      have hshown : base { s with events := events, shown := status } = some status := if_pos hpc
      have hrest : coming { s with events := events, shown := status }
          = events.filterMap id ++ s.down.filterMap MirrorLine.told := rfl
      rw [hshown, hrest] at hlast
      rw [hbase, hcoming] at hfresh
      exact hfresh (by simpa [List.getLast?_cons_cons] using hlast)
  · next events hpc hevents =>
    obtain rfl := Option.some.inj hl
    have hcoming : coming { s with events := events } = s.coming := by
      unfold coming
      rw [hevents]
      rfl
    refine h.congr rfl rfl rfl rfl id (fun _ => id) (fun _ => hcoming) ?_
    rw [hcoming]
    exact h.fresh
  · cases hl

/-- **Every step that is heard keeps what is shown on the way to what is.** -/
theorem Inv.step {l : MirrorLabel} (h : s.Inv) (hok : s.Heard capacity l)
    (hl : s.step capacity l = some s') : s'.Inv := by
  cases l with
  | set status =>
    obtain rfl := Option.some.inj hl
    exact h.congr rfl rfl rfl rfl id (fun _ => id) (fun _ => rfl) fun _ h => by cases h
  | serve => exact h.serve hl
  | tell => exact h.tell hl
  | tellOther => exact h.tellOther hl
  | read => exact h.read hok hl
  | goOn => exact h.goOn hl
  | timesOut => exact hok.elim
  | hear => exact h.hear hl

end MirrorRun

/-- **The window shows the session's status** once all has arrived and is heard: in every run in which
the one question is answered and no status falls out of the channel, whatever else goes through it,
and however often the status changes before, while and after the window asks. -/
theorem status_mirrored {capacity : Nat} {s : MirrorRun}
    (hs : (mirrorRuns capacity).Reach (MirrorRun.Heard capacity) s) (hpc : s.pc = .mirroring)
    (hdown : s.down = []) (hevents : s.events = []) (hunseen : s.unseen = false) :
    s.shown = s.status := by
  have hinv : s.Inv := by
    refine Lts.Reach.invariant (P := MirrorRun.Inv) ?_ (fun _ _ _ _ ih hok hl => ih.step hok hl) hs
    rintro _ ⟨status, rfl⟩
    exact MirrorRun.inv_start status
  have hsub : s.subscribed = true := by
    by_contra hno
    have hearly := (hinv.before (by simpa using hno)).2
    rw [hpc] at hearly
    cases hearly
  refine hinv.fresh hsub hunseen s.shown ?_
  have hbase : s.base = some s.shown := if_pos hpc
  simp [hbase, MirrorRun.coming, hdown, hevents]

instance (capacity : Nat) (s : MirrorRun) :
    (l : MirrorLabel) → Decidable (s.Heard capacity l)
  | .timesOut => isFalse id
  | .read => inferInstanceAs (Decidable (s.fallsOut capacity = none))
  | .set _ | .serve | .tell | .tellOther | .goOn | .hear => isTrue trivial

/-- The window asks while a client comes up, which connects before it has heard the answer. -/
theorem status_mirrored_connecting : ∃ s,
    (mirrorRuns 1024).Reach (MirrorRun.Heard 1024) s ∧ s.shown = .connected := by
  let labels : List MirrorLabel :=
    [.serve, .read, .goOn, .set .connecting, .tell, .tellOther, .serve, .set .connected, .tell, .read,
      .read, .read, .read, .goOn, .hear, .hear, .hear]
  have hrun : (mirrorRuns 1024).exec (MirrorRun.Heard 1024) {} labels
      = some { status := .connected, subscribed := true, up := [], pc := .mirroring,
               shown := .connected, replied := some .connecting } := by
    decide +kernel
  have hreach := Lts.reach_of_exec (M := mirrorRuns 1024) ⟨.stopped, rfl⟩ hrun
  exact ⟨_, hreach, status_mirrored hreach rfl rfl rfl rfl⟩

/-- A channel of two, in which two log lines come after the status: the window goes on showing that
nothing runs. -/
theorem status_falls_out : ¬ ∀ s, (mirrorRuns 2).Reachable s → s.pc = .mirroring → s.down = [] →
    s.events = [] → s.unseen = false → s.shown = s.status := by
  intro h
  have hrun : (mirrorRuns 2).run {} [.serve, .read, .goOn, .serve, .read, .goOn, .set .connected,
      .tell, .tellOther, .tellOther, .read, .read, .read, .hear, .hear]
      = some { status := .connected, subscribed := true, up := [], pc := .mirroring,
               replied := some .stopped } := by
    decide +kernel
  cases h _ (Lts.reachable_of_run ⟨.stopped, rfl⟩ hrun) rfl rfl rfl rfl

end GeserDesk
