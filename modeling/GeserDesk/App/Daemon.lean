import GeserDesk.App.Session

/-!
# The daemon

The loop of `run` in `geserdesk-app/src/daemon.rs`, over the session (`App/Session.lean`) and the
commands that controllers give through `Service::dispatch`: the daemon ends when a controller tells it
to, when it gets a signal, when its session is over (`exit_on_stop`), or when none was started. The
loop's look at the session, what it decides of it, and the end of a stop and the close that follows
it are steps of their own.

* **`daemon_gives_back`**: when the daemon's loop is over nothing is recorded, and whatever is still
  alive was told to stop, as long as no start comes between a look or a stop and the close.
* **`start_cuts_in`**: a start that does leaves a client that nobody stops.
-/

namespace GeserDesk

/-- The two of `DaemonOptions` that the loop looks at; whether there is a timeout at all. -/
structure DaemonOptions where
  exitOnStop : Bool
  idleTimeout : Bool

/-- What follows a command once the session's part of it is over. -/
inductive After where
  | nothing
  /-- `Service::close`. -/
  | close
  /-- The loop closes, and is left. -/
  | leave
deriving DecidableEq, Repr

inductive LoopPc where
  | waiting
  /-- It has asked `is_running`. -/
  | looked (running : Bool)
  /-- It has got a signal, and stops the session. -/
  | stopping
  | finished
deriving DecidableEq, Repr

structure DaemonRun where
  session : SessionRun := {}
  /-- `sessions_started`. -/
  started : Nat := 0
  /-- By the commands under way, as the session has them. -/
  after : List After := []
  /-- What is to be done next by those that are over. -/
  due : List After := []
  closing : Bool := false
  loop : LoopPc := .waiting
  /-- The session was found over before. -/
  endedAt : Bool := false
deriving DecidableEq, Repr

inductive DaemonLabel where
  | start (kind : TaskKind)
  | stop
  | shutdown
  | signal
  | session (e : SessionEvent)
  | finish (k : Nat)
  | tick
  /-- Whether it was over for long enough; whether the timeout is over. -/
  | decide (lingered idle : Bool)
  /-- The loop sees that the service closes. -/
  | closed
deriving DecidableEq, Repr

def SessionEvent.isCommand : SessionEvent → Bool
  | .startCmd _ | .stopCmd => true
  | _ => false

/-- What the tasks do. -/
def SessionEvent.isTask : SessionEvent → Bool
  | .report _ _ | .last _ _ | .fail _ | .ready _ | .publish _ | .finish _ => true
  | _ => false

/-- The command that a step may be the last of. -/
def SessionEvent.callOf : SessionEvent → Option Nat
  | .call j | .refuse j => some j
  | _ => none

namespace DaemonRun

/-- A command comes to the session. -/
def command (s : DaemonRun) (e : SessionEvent) (after : After) : Option DaemonRun :=
  (s.session.step e).map fun session => { s with session := session, after := s.after ++ [after] }

/-- A step of the session that a start counts itself in. -/
def counts (s : DaemonRun) (e : SessionEvent) : Bool :=
  match e with
  | .call j =>
    match s.session.calls[j]? with
    | some (.checked _) => true
    | _ => false
  | _ => false

/-- The command that a step was the last of. -/
def returned (s : DaemonRun) (session : SessionRun) (e : SessionEvent) : Option Nat :=
  if session.calls.length < s.session.calls.length then e.callOf else none

def step (o : DaemonOptions) (s : DaemonRun) : DaemonLabel → Option DaemonRun
  | .start kind => s.command (.startCmd kind) .nothing
  | .stop => s.command .stopCmd (if o.exitOnStop then .close else .nothing)
  | .shutdown => s.command .stopCmd .close
  | .signal =>
    if s.loop = .waiting then ({ s with loop := .stopping } : DaemonRun).command .stopCmd .leave
    else none
  | .session e =>
    if e.isCommand then none
    else (s.session.step e).map fun session =>
      let started := if s.counts e then s.started + 1 else s.started
      match s.returned session e with
      | none => { s with session := session, started := started }
      | some j =>
        { s with
          session := session
          started := started
          after := s.after.eraseIdx j
          due := s.due ++ (s.after[j]?).toList.filter (· ≠ .nothing) }
  | .finish k =>
    match s.due[k]? with
    | some .close => some { s with closing := true, due := s.due.eraseIdx k }
    | some .leave => some { s with closing := true, due := s.due.eraseIdx k, loop := .finished }
    | _ => none
  | .tick =>
    if s.loop = .waiting then
      let session := s.session.isRunning
      some { s with session := session, loop := .looked session.running.isSome }
    else none
  | .decide lingered idle =>
    match s.loop with
    | .looked true => some { s with endedAt := false, loop := .waiting }
    | .looked false =>
      if 0 < s.started then
        -- one was started and is over
        if o.exitOnStop then
          if s.endedAt ∧ lingered then some { s with closing := true, loop := .finished }
          else some { s with endedAt := true, loop := .waiting }
        else some { s with loop := .waiting }
      else if o.idleTimeout ∧ idle then some { s with closing := true, loop := .finished }
      else some { s with loop := .waiting }
    | _ => none
  | .closed => if s.loop = .waiting ∧ s.closing then some { s with loop := .finished } else none

/-- Commands come one at a time, as the session has them (`Orderly`), and none is under way when the
loop looks; no start comes once the loop has found nothing running, a stop that ends the daemon is
over, or the daemon closes. -/
def Undivided (s : DaemonRun) : DaemonLabel → Prop
  | .start kind => s.session.Orderly (.startCmd kind) ∧ s.closing = false ∧ s.due = []
    ∧ s.loop ≠ .looked false ∧ s.loop ≠ .finished
  | .stop | .shutdown | .signal => s.session.Orderly .stopCmd
  | .session e => s.session.Orderly e
  | .tick => s.session.calls = []
  | _ => True

end DaemonRun

def daemonRuns (o : DaemonOptions) : Lts DaemonRun DaemonLabel where
  init s := s = {}
  step := DaemonRun.step o

/-! ## Steps of the session

What a step of the session does to the calls under way: one begins, goes on or ends, and `Vacant`
says that none of them holds a session. -/

/-- A place in `stop`. -/
def CallPc.Stops : CallPc → Prop
  | .stop | .took _ | .cleared _ | .aborting | .waiting _ | .waited | .mustSet => True
  | _ => False

/-- A place in a `stop` that has found nothing to stop. -/
def CallPc.Idle (pc : CallPc) : Prop := pc = .stop ∨ pc = .took none ∨ pc = .cleared none

namespace SessionRun

variable {s s' : SessionRun}

/-- Nothing is recorded, and no command is about to record anything. -/
def Vacant (s : SessionRun) : Prop := s.running = none ∧ ∀ pc ∈ s.calls, pc.Idle

/-- A task's own step calls nothing and leaves the running session where it is. -/
theorem task_calls {e : SessionEvent} (h : s.step e = some s')
    (htask : e.isTask = true) : s'.calls = s.calls ∧ s'.running = s.running := by
  cases e with
  | startCmd kind => cases htask
  | stopCmd => cases htask
  | call j => cases htask
  | refuse j => cases htask
  | grace j => cases htask
  | poll => cases htask
  | report i status | last i status | fail i | ready i | publish i | finish i =>
    simp only [SessionRun.step] at h
    split at h
    · split at h
      · obtain rfl := Option.some.inj h
        exact ⟨rfl, rfl⟩
      · cases h
    · cases h

/-- What a step does to the commands under way. -/
inductive CallsStep (s : SessionRun) (e : SessionEvent) (s' : SessionRun) : Prop where
  | same (hcalls : s'.calls = s.calls)
  | goesOn {j : Nat} {pc pc' : CallPc} (hpc : s.calls[j]? = some pc)
      (hcalls : s'.calls = s.calls.set j pc') (hstops : pc.Stops → pc'.Stops)
  /-- A stop that is over has been past its first two sections. -/
  | ends {j : Nat} {pc : CallPc} (hcall : e.callOf = some j) (hpc : s.calls[j]? = some pc)
      (hcalls : s'.calls = s.calls.eraseIdx j)
      (hstops : pc.Stops → s'.running = s.running ∧ pc ≠ .stop ∧ ∀ i, pc ≠ .took i)

/-- A step of a call moves that call on or ends it. -/
theorem callStep_calls {j : Nat} {pc : CallPc} (hpc : s.calls[j]? = some pc)
    (h : s.callStep j pc = some s') : CallsStep s (.call j) s' := by
  unfold callStep at h
  -- where the call is decides what it does next
  cases pc with
  | start kind =>
    obtain rfl := Option.some.inj h
    -- a session that runs already ends the call here
    split
    · exact .ends rfl hpc (by rw [return_, isRunning_calls]) (fun h => h.elim)
    · exact .goesOn hpc (congrArg (·.set j (.checked kind)) isRunning_calls) fun h => h.elim
  | checked kind =>
    obtain rfl := Option.some.inj h
    exact .goesOn hpc rfl (fun h => h.elim)
  | announced kind =>
    obtain rfl := Option.some.inj h
    exact .goesOn hpc rfl (fun h => h.elim)
  | spawned i =>
    obtain rfl := Option.some.inj h
    exact .goesOn hpc rfl (fun h => h.elim)
  | handedOver i =>
    obtain rfl := Option.some.inj h
    exact .ends rfl hpc rfl (fun h => h.elim)
  | stop =>
    obtain rfl := Option.some.inj h
    exact .goesOn hpc rfl (fun _ => trivial)
  | took running =>
    obtain rfl := Option.some.inj h
    exact .goesOn hpc rfl (fun _ => trivial)
  | cleared running =>
    -- nothing was running, or the call still waits for the task it took out
    cases running with
    | none =>
      obtain rfl := Option.some.inj h
      exact .ends rfl hpc rfl (fun _ => ⟨rfl, nofun, nofun⟩)
    | some i =>
      simp only at h
      split at h
      · obtain rfl := Option.some.inj h
        exact .goesOn hpc rfl (fun _ => trivial)
      · obtain rfl := Option.some.inj h
        exact .goesOn hpc rfl (fun _ => trivial)
      · cases h
  | aborting =>
    obtain rfl := Option.some.inj h
    exact .ends rfl hpc rfl (fun _ => ⟨rfl, nofun, nofun⟩)
  | waiting i =>
    -- the thread of that task is over, or the call waits on
    simp only at h
    split at h
    · split at h
      · obtain rfl := Option.some.inj h
        exact .goesOn hpc rfl (fun _ => trivial)
      · cases h
    · cases h
  | waited =>
    obtain rfl := Option.some.inj h
    -- the session left its state behind, or the call must set it
    split
    · exact .ends rfl hpc rfl (fun _ => ⟨rfl, nofun, nofun⟩)
    · exact .goesOn hpc rfl (fun _ => trivial)
  | mustSet =>
    obtain rfl := Option.some.inj h
    exact .ends rfl hpc rfl (fun _ => ⟨rfl, nofun, nofun⟩)

/-- What becomes of the calls in a step that is no command: one of the cases of `CallsStep`. -/
theorem calls_cases {e : SessionEvent} (h : s.step e = some s') (he : e.isCommand = false) :
    CallsStep s e s' := by
  cases e with
  | startCmd kind => cases he
  | stopCmd => cases he
  | poll =>
    obtain rfl := Option.some.inj h
    exact .same isRunning_calls
  | call j =>
    simp only [SessionRun.step] at h
    split at h
    · next pc hpc =>
      exact callStep_calls hpc h
    · cases h
  | refuse j =>
    simp only [SessionRun.step] at h
    split at h
    · next hpc =>
      obtain rfl := Option.some.inj h
      exact .ends rfl hpc rfl fun h => h.elim
    · cases h
  | grace j =>
    simp only [SessionRun.step] at h
    split at h
    · next i hpc =>
      split at h
      · split at h
        · obtain rfl := Option.some.inj h
          exact .goesOn hpc rfl fun _ => trivial
        · cases h
      · cases h
    · cases h
  | report i status => exact .same (task_calls h rfl).1
  | last i status => exact .same (task_calls h rfl).1
  | fail i => exact .same (task_calls h rfl).1
  | ready i => exact .same (task_calls h rfl).1
  | publish i => exact .same (task_calls h rfl).1
  | finish i => exact .same (task_calls h rfl).1

/-- Where all calls are idle, one that changes to idle leaves it so. -/
theorem Vacant.set {calls : List CallPc} (h : ∀ pc ∈ calls, pc.Idle) {j : Nat} {pc' : CallPc}
    (hpc' : pc'.Idle) : ∀ pc ∈ calls.set j pc', pc.Idle := by
  intro pc hpc
  rcases List.mem_or_eq_of_mem_set hpc with hpc | rfl
  · exact h pc hpc
  · exact hpc'

/-- Where nothing is recorded, nothing is until a start comes. -/
theorem Vacant.step {e : SessionEvent} (h : s.Vacant) (hl : s.step e = some s')
    (he : e.isCommand = false) : s'.Vacant := by
  obtain ⟨hrunning, hidle⟩ := h
  -- no call under way holds a session
  have hat : ∀ {j : Nat} {pc : CallPc}, s.calls[j]? = some pc → pc.Idle := fun hpc =>
    hidle _ (List.mem_of_getElem? hpc)
  -- no command comes here
  cases e with
  | startCmd kind => cases he
  | stopCmd => cases he
  | poll =>
    obtain rfl := Option.some.inj hl
    have hsame : s.isRunning = s := by
      unfold SessionRun.isRunning
      rw [hrunning]
    rw [hsame]
    exact ⟨hrunning, hidle⟩
  -- a start that finds it free goes on to be announced
  | call j =>
    simp only [SessionRun.step] at hl
    split at hl
    · next pc hpc =>
      rcases hat hpc with rfl | rfl | rfl
      · obtain rfl := Option.some.inj hl
        refine ⟨rfl, Vacant.set hidle (.inr (.inl ?_))⟩
        rw [hrunning]
      · obtain rfl := Option.some.inj hl
        exact ⟨hrunning, Vacant.set hidle (.inr (.inr rfl))⟩
      · obtain rfl := Option.some.inj hl
        exact ⟨hrunning, fun pc hpc => hidle pc (List.mem_of_mem_eraseIdx hpc)⟩
    · cases hl
  -- a refusal or a grace is of a call further on
  | refuse j =>
    simp only [SessionRun.step] at hl
    split at hl
    · next hpc => rcases hat hpc with h | h | h <;> cases h
    · cases hl
  | grace j =>
    simp only [SessionRun.step] at hl
    split at hl
    · next hpc => rcases hat hpc with h | h | h <;> cases h
    · cases hl
  -- a task's own step leaves the calls alone
  | report i status | last i status | fail i | ready i | publish i | finish i =>
    obtain ⟨hcalls, hsame⟩ := task_calls hl rfl
    exact ⟨hsame.trans hrunning, hcalls ▸ hidle⟩

/-- Once a stop is over nothing is recorded. -/
theorem Inv.vacant_after_stop (h : s.Inv) {j : Nat} {pc : CallPc} (hpc : s.calls[j]? = some pc)
    (hcalls : s'.calls = s.calls.eraseIdx j) (hrunning : s'.running = s.running)
    (hstops : pc.Stops) (hpast : pc ≠ .stop ∧ ∀ i, pc ≠ .took i) : s'.Vacant := by
  obtain ⟨rfl, hone⟩ := h.only hpc
  have hnone : s.running = none := by
    cases pc with
    | start kind | checked kind | announced kind | spawned i | handedOver i => exact hstops.elim
    | stop => exact absurd rfl hpast.1
    | took i => exact absurd rfl (hpast.2 i)
    | cleared i => cases i <;> exact (h.meets_at hone rfl).vacant rfl
    | aborting | waiting i | waited | mustSet => exact (h.meets_at hone rfl).vacant rfl
  refine ⟨hrunning.trans hnone, ?_⟩
  rw [hcalls, hone]
  exact fun pc hpc => absurd hpc List.not_mem_nil

end SessionRun

/-! ## Steps of the daemon

The daemon dispatches commands until it closes and then stops the session. The invariant follows
the two, and after the loop's end no session is left. -/

/-- The daemon is about to end, or has found nothing running. -/
def DaemonRun.Ending (s : DaemonRun) : Prop :=
  s.closing = true ∨ s.due ≠ [] ∨ s.loop = .looked false ∨ s.loop = .finished

/-- What is so in every run that is not divided. -/
structure DaemonInv (s : DaemonRun) : Prop where
  session : s.session.Inv
  length : s.after.length = s.session.calls.length
  /-- Only a stop has something to follow it. -/
  stops : ∀ (j : Nat) (a : After) (pc : CallPc), s.after[j]? = some a → a ≠ .nothing →
    s.session.calls[j]? = some pc → pc.Stops
  vacant : s.Ending → s.session.Vacant

/-- A command taken by the loop waits for its call. -/
theorem daemonInv_command {s s' : DaemonRun} {e : SessionEvent} {after : After} {pc : CallPc}
    (h : DaemonInv s) (hl : s.command e after = some s') (hok : s.session.Orderly e)
    (hcalls : s.session.step e = some { s.session with calls := s.session.calls ++ [pc] })
    (hstops : after ≠ .nothing → pc.Stops) (hidle : s.Ending → pc.Idle) : DaemonInv s' := by
  obtain ⟨session, hsession, rfl⟩ := Option.map_eq_some_iff.mp hl
  obtain rfl := Option.some.inj (hcalls.symm.trans hsession)
  refine ⟨h.session.step hok hsession, ?_, fun j a pc' ha hne hpc' => ?_, fun hend => ?_⟩
  · show (s.after ++ [after]).length = (s.session.calls ++ [pc]).length
    rw [List.length_append, List.length_append, h.length]
    rfl
  · have ha' : (s.after ++ [after])[j]? = some a := ha
    have hpc'' : (s.session.calls ++ [pc])[j]? = some pc' := hpc'
    by_cases hj : j < s.after.length
    · rw [List.getElem?_append_left hj] at ha'
      rw [List.getElem?_append_left (h.length ▸ hj)] at hpc''
      exact h.stops j a pc' ha' hne hpc''
    · rw [List.getElem?_append_right (Nat.not_lt.mp hj)] at ha'
      rw [List.getElem?_append_right (h.length ▸ Nat.not_lt.mp hj), ← h.length] at hpc''
      rw [List.getElem?_singleton] at ha' hpc''
      split_ifs at ha' hpc''
      obtain rfl := Option.some.inj ha'
      obtain rfl := Option.some.inj hpc''
      exact hstops hne
  · obtain ⟨hnone, hcallsIdle⟩ := h.vacant hend
    refine ⟨hnone, fun pc' hpc' => ?_⟩
    rcases List.mem_append.mp hpc' with hmem | hmem
    · exact hcallsIdle pc' hmem
    · rw [List.mem_singleton.mp hmem]
      exact hidle hend

/-- A step of the session keeps what the loop has on record. -/
theorem daemonInv_session {o : DaemonOptions} {s s' : DaemonRun} {e : SessionEvent}
    (h : DaemonInv s) (hl : s.step o (.session e) = some s') (hok : s.session.Orderly e) :
    DaemonInv s' := by
  simp only [DaemonRun.step] at hl
  by_cases hcommand : e.isCommand = true
  · rw [if_pos hcommand] at hl
    cases hl
  rw [if_neg hcommand] at hl
  have he : e.isCommand = false := by simpa using hcommand
  obtain ⟨session, hsession, rfl⟩ := Option.map_eq_some_iff.mp hl
  have hinv := h.session.step hok hsession
  cases SessionRun.calls_cases hsession he with
  | same hcalls =>
    have hreturned : s.returned session e = none := by
      unfold DaemonRun.returned
      rw [hcalls, if_neg (Nat.lt_irrefl _)]
    simp only [hreturned]
    refine ⟨hinv, h.length.trans (congrArg List.length hcalls.symm), ?_, fun hend =>
      (h.vacant hend).step hsession he⟩
    show ∀ (j : Nat) (a : After) (pc : CallPc), s.after[j]? = some a → a ≠ .nothing →
      session.calls[j]? = some pc → pc.Stops
    rw [hcalls]
    exact h.stops
  | @goesOn j pc pc' hpc hcalls hstops =>
    have hreturned : s.returned session e = none := by
      unfold DaemonRun.returned
      rw [hcalls, List.length_set, if_neg (Nat.lt_irrefl _)]
    simp only [hreturned]
    refine ⟨hinv, ?_, fun k a pc'' ha hne hpc'' => ?_, fun hend =>
      (h.vacant hend).step hsession he⟩
    · show s.after.length = session.calls.length
      rw [hcalls, List.length_set, h.length]
    · have hat : session.calls[k]? = some pc'' := hpc''
      rw [hcalls, List.getElem?_set] at hat
      split_ifs at hat with hk hlen
      · obtain rfl := Option.some.inj hat
        exact hstops (h.stops j a pc (hk ▸ ha) hne hpc)
      · exact h.stops k a pc'' ha hne hat
  | @ends j pc hcall hpc hcalls hstops =>
    obtain ⟨rfl, hone⟩ := h.session.only hpc
    have hreturned : s.returned session e = some 0 := by
      unfold DaemonRun.returned
      rw [hcalls, hone, if_pos (by simp), hcall]
    -- it was the only one
    have hnil : session.calls = [] := by rw [hcalls, hone]; rfl
    have hlen : s.after.length = 1 := by rw [h.length, hone]; rfl
    obtain ⟨a, ha⟩ := List.length_eq_one_iff.mp hlen
    simp only [hreturned, ha]
    refine ⟨hinv, ?_, fun k a' pc' ha' => ?_, fun hend => ?_⟩
    · show [].length = session.calls.length
      rw [hnil]
      rfl
    · cases ha'
    · by_cases hbefore : s.Ending
      · exact (h.vacant hbefore).step hsession he
      by_cases hnothing : a = .nothing
      · refine absurd ?_ hbefore
        rcases hend with hclosing | hdue | hloop
        · exact .inl hclosing
        · refine .inr (.inl ?_)
          simpa [hnothing] using hdue
        · exact .inr (.inr hloop)
      · have hstop : pc.Stops := h.stops 0 a pc (by rw [ha]; rfl) hnothing hpc
        obtain ⟨hrunning, hpast⟩ := hstops hstop
        exact h.session.vacant_after_stop hpc hcalls hrunning hstop hpast

/-- **Every undivided step keeps the loop and the session in step.** -/
theorem daemonInv_step {o : DaemonOptions} {s s' : DaemonRun} {l : DaemonLabel} (h : DaemonInv s)
    (hok : s.Undivided l) (hl : s.step o l = some s') : DaemonInv s' := by
  cases l with
  | start kind =>
    obtain ⟨horderly, hclosing, hdue, hlook, hover⟩ := hok
    refine daemonInv_command h hl horderly rfl (fun hne => absurd rfl hne) fun hend => ?_
    -- a start comes while nothing ends, so it cannot make what ends vacant
    rcases hend with hend | hend | hend | hend
    · rw [hclosing] at hend
      cases hend
    · exact absurd hdue hend
    · exact absurd hend hlook
    · exact absurd hend hover
  | stop => exact daemonInv_command h hl hok rfl (fun _ => trivial) fun _ => .inl rfl
  | shutdown => exact daemonInv_command h hl hok rfl (fun _ => trivial) fun _ => .inl rfl
  | signal =>
    simp only [DaemonRun.step] at hl
    split_ifs at hl with hloop
    -- a signal stops the loop, with what has ended as vacant as before
    have hstopping : DaemonInv { s with loop := .stopping } := by
      refine ⟨h.session, h.length, h.stops, fun hend => h.vacant ?_⟩
      rcases hend with hend | hend | hend | hend
      · exact .inl hend
      · exact .inr (.inl hend)
      · cases hend
      · cases hend
    exact daemonInv_command hstopping hl hok rfl (fun _ => trivial) fun _ => .inl rfl
  | session e => exact daemonInv_session h hl hok
  | finish k =>
    -- what is due was vacant when it became so
    have hvacant : s.due[k]? ≠ none → s.session.Vacant := fun hk => h.vacant (.inr (.inl (by
      rintro hnil
      rw [hnil] at hk
      exact hk rfl)))
    simp only [DaemonRun.step] at hl
    split at hl
    · next hk =>
      obtain rfl := Option.some.inj hl
      exact ⟨h.session, h.length, h.stops, fun _ => hvacant (by simp [hk])⟩
    · next hk =>
      obtain rfl := Option.some.inj hl
      exact ⟨h.session, h.length, h.stops, fun _ => hvacant (by simp [hk])⟩
    · cases hl
  | tick =>
    simp only [DaemonRun.step] at hl
    split_ifs at hl with hloop
    obtain rfl := Option.some.inj hl
    have hcalls : s.session.isRunning.calls = [] := SessionRun.isRunning_calls.trans hok
    refine ⟨h.session.isRunning, ?_, fun j a pc ha hne hpc => ?_, fun hend => ?_⟩
    · show s.after.length = s.session.isRunning.calls.length
      rw [SessionRun.isRunning_calls, h.length]
    · rw [hcalls] at hpc
      cases hpc
    · refine ⟨?_, by rw [hcalls]; exact fun pc hpc => absurd hpc List.not_mem_nil⟩
      -- what ends stays vacant through the look
      have hbefore : s.Ending → s.session.isRunning.running = none := by
        intro hending
        have hnone := (h.vacant hending).1
        unfold SessionRun.isRunning
        rw [hnone]
        exact hnone
      rcases hend with hend | hend | hend | hend
      · exact hbefore (.inl hend)
      · exact hbefore (.inr (.inl hend))
      · exact Option.not_isSome_iff_eq_none.mp (by simpa using hend)
      · cases hend
  | decide lingered idle =>
    -- a decision changes neither the session nor what waits
    have hkept : ∀ t : DaemonRun, t.session = s.session → t.after = s.after →
        (t.Ending → s.Ending) → DaemonInv t := by
      rintro ⟨session, started, after, due, closing, loop, endedAt⟩ rfl rfl hend
      exact ⟨h.session, h.length, h.stops, fun hending => h.vacant (hend hending)⟩
    simp only [DaemonRun.step] at hl
    split at hl
    · obtain rfl := Option.some.inj hl
      refine hkept _ rfl rfl fun hend => ?_
      rcases hend with hend | hend | hend | hend
      · exact .inl hend
      · exact .inr (.inl hend)
      · cases hend
      · cases hend
    · next hlook =>
      split_ifs at hl <;>
      · obtain rfl := Option.some.inj hl
        exact hkept _ rfl rfl fun _ => .inr (.inr (.inl hlook))
    · cases hl
  | closed =>
    simp only [DaemonRun.step] at hl
    split_ifs at hl with hclosed
    obtain rfl := Option.some.inj hl
    exact ⟨h.session, h.length, h.stops, fun _ => h.vacant (.inl hclosed.2)⟩

/-- The invariant holds in every state reached. -/
theorem daemonInv_reach {o : DaemonOptions} {s : DaemonRun}
    (hs : (daemonRuns o).Reach DaemonRun.Undivided s) : DaemonInv s := by
  refine Lts.Reach.invariant (P := DaemonInv) (fun s h => ?_) ?_ hs
  · obtain rfl : s = {} := h
    refine ⟨SessionRun.inv_init, rfl, fun j a pc ha => ?_, fun _ => ⟨rfl, fun pc hpc => ?_⟩⟩
    · cases ha
    · cases hpc
  · exact fun _ _ _ _ ih hok hl => daemonInv_step ih hok hl

/-- **The daemon gives the keyboard and the mouse back.** However it comes to its end (a controller, a
signal, a session that is over, none that was started), in every run in which commands come one at a
time and no start comes between a look or a stop and the close: nothing is recorded when it ends, and
every client or server that is still alive has been told to stop. -/
theorem daemon_gives_back {o : DaemonOptions} {s : DaemonRun}
    (hs : (daemonRuns o).Reach DaemonRun.Undivided s) (hover : s.loop = .finished) :
    s.session.running = none ∧ ∀ (i : Nat) (t : SessionTask), s.session.tasks[i]? = some t →
      t.Alive → t.told = true := by
  have hinv := daemonInv_reach hs
  obtain ⟨hnone, hidle⟩ := hinv.vacant (.inr (.inr (.inr hover)))
  refine ⟨hnone, fun i t ht halive => ?_⟩
  rcases hinv.session.sound.known i t ht halive with hrunning | htold | ⟨pc, hpc, hheld⟩
  · rw [hnone] at hrunning
    cases hrunning
  · exact htold
  · -- a stop that found nothing has no task in its hands
    rcases hidle pc hpc with rfl | rfl | rfl <;> simp at hheld

instance (s : DaemonRun) : (l : DaemonLabel) → Decidable (s.Undivided l)
  | .start kind => inferInstanceAs (Decidable (s.session.Orderly (.startCmd kind) ∧ _))
  | .stop | .shutdown | .signal => inferInstanceAs (Decidable (s.session.Orderly .stopCmd))
  | .session e => inferInstanceAs (Decidable (s.session.Orderly e))
  | .tick => inferInstanceAs (Decidable (s.session.calls = []))
  | .finish _ | .decide _ _ | .closed => isTrue trivial

/-- The steps of a start. -/
def startedWhole (kind : TaskKind) : List DaemonLabel :=
  .start kind :: List.replicate 5 (.session (.call 0))

/-- A server is started, and a controller ends the daemon. -/
theorem daemon_gives_back_shutdown : ∃ s : DaemonRun,
    (daemonRuns ⟨true, false⟩).Reach DaemonRun.Undivided s ∧ s.loop = .finished
      ∧ s.session.tasks.length = 1 ∧ s.session.running = none := by
  let labels : List DaemonLabel := startedWhole .server
    ++ [.session (.ready 0), .session (.publish 0), .tick, .decide false false, .shutdown,
      .session (.call 0), .session (.call 0), .session (.call 0), .session (.finish 0),
      .session (.call 0), .session (.call 0), .session (.call 0), .finish 0, .closed]
  have hsome : ((daemonRuns ⟨true, false⟩).exec DaemonRun.Undivided {} labels).isSome = true := by
    decide +kernel
  obtain ⟨s, hs⟩ := Option.isSome_iff_exists.mp hsome
  have hreach := Lts.reach_of_exec (M := daemonRuns ⟨true, false⟩) rfl hs
  have hend : ((daemonRuns ⟨true, false⟩).exec DaemonRun.Undivided {} labels).all fun s =>
      decide (s.loop = .finished ∧ s.session.tasks.length = 1) := by decide +kernel
  rw [hs] at hend
  obtain ⟨hover, hone⟩ := of_decide_eq_true hend
  exact ⟨s, hreach, hover, hone, (daemon_gives_back hreach hover).1⟩

/-- The loop finds a session over, and a client is started before it closes: nobody stops it. -/
theorem start_cuts_in : ¬ ∀ (o : DaemonOptions) (s : DaemonRun), (daemonRuns o).Reachable s →
    s.loop = .finished → ∀ t ∈ s.session.tasks, t.Alive → t.told = true := by
  intro h
  have hrun : (daemonRuns ⟨true, false⟩).run {} (startedWhole .client
      ++ [.session (.last 0 .fatal), .session (.finish 0), .tick, .decide false false, .tick]
      ++ startedWhole .client ++ [.decide true false])
      = some ⟨⟨some 1, none, .connecting, [⟨.client, .ended, false, false, false, false, false⟩,
        ⟨.client, .up, false, false, false, false, false⟩], []⟩, 2, [], [], true, .finished, true⟩ := by
    decide +kernel
  have htold := h _ _ (Lts.reachable_of_run rfl hrun) rfl
    ⟨.client, .up, false, false, false, false, false⟩ (by simp) nofun
  cases htold

end GeserDesk
