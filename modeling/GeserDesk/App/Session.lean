import GeserDesk.Lib.Table
import GeserDesk.Lib.Transition

/-!
# The session of the app

`Session` of `geserdesk-app/src/session.rs`. Any number of controllers start and stop it; each
section under a lock, each status that is set and each task that is spawned is a step, and so is
what the tasks do. A server that is told to stop takes its time; a client that is aborted goes
on until it is next suspended; and the desk of a new server is handed over by a task of its own.

* **`session_sound`**: there is one task at a time, none is forgotten, and what is shown when
  nothing is under way is what there is. This is so in every run in which a command comes when
  the one before it is over, with all it has started or stopped (`Orderly`).
* **`commands_cut_in`**: two starts at once, a desk that comes after the stop and a status that
  does are what happens in the others.
-/

namespace GeserDesk

/-- `Status`, without its texts. -/
inductive Status where
  | stopped | connecting | connected | awaitingApproval | retrying | fatal | serverRunning | error
deriving DecidableEq, Repr

/-- The status says that nothing runs. -/
def Status.over : Status → Bool
  | .stopped | .fatal | .error => true
  | _ => false

inductive TaskKind where
  | client | server
deriving DecidableEq, Repr

inductive TaskPhase where
  /-- A client at work, or a server that does not listen yet. -/
  | up
  /-- A server that listens, and has sent its desk. -/
  | ready
  /-- It has set its last status. -/
  | ending
  | ended
deriving DecidableEq, Repr

/-- A spawned client or server. -/
structure SessionTask where
  kind : TaskKind
  phase : TaskPhase := .up
  /-- The signal to stop is sent. -/
  told : Bool := false
  aborted : Bool := false
  /-- The desk was sent; there is somebody to hand it over; it was. -/
  sent : Bool := false
  publisher : Bool := false
  published : Bool := false
deriving DecidableEq, Repr

def SessionTask.Alive (t : SessionTask) : Prop := t.phase ≠ .ended

/-- Where a command is. -/
inductive CallPc where
  /-- `start_client_options` and `start_server_config`. -/
  | start (kind : TaskKind)
  /-- Nothing was running. -/
  | checked (kind : TaskKind)
  /-- The status says that it starts. -/
  | announced (kind : TaskKind)
  | spawned (i : Nat)
  /-- The task for a server's desk is spawned too. -/
  | handedOver (i : Nat)
  /-- `stop`. -/
  | stop
  /-- What was recorded is taken out. -/
  | took (running : Option Nat)
  | cleared (running : Option Nat)
  /-- The client is aborted. -/
  | aborting
  /-- The server is told, and has its grace period. -/
  | waiting (i : Nat)
  | waited
  | mustSet
deriving DecidableEq, Repr

structure SessionRun where
  running : Option Nat := none
  desk : Option Nat := none
  status : Status := .stopped
  tasks : List SessionTask := []
  /-- The commands under way. -/
  calls : List CallPc := []
deriving DecidableEq, Repr

inductive SessionEvent where
  | startCmd (kind : TaskKind)
  | stopCmd
  /-- The next step of a command. -/
  | call (j : Nat)
  /-- A client's settings do not do. -/
  | refuse (j : Nat)
  /-- The grace period is over. -/
  | grace (j : Nat)
  /-- `is_running`, asked by anybody. -/
  | poll
  | report (i : Nat) (status : Status)
  /-- The last status of a client. -/
  | last (i : Nat) (status : Status)
  /-- A server that fails to start. -/
  | fail (i : Nat)
  | ready (i : Nat)
  | publish (i : Nat)
  | finish (i : Nat)
deriving DecidableEq, Repr

namespace SessionRun

def set (s : SessionRun) (status : Status) : SessionRun := { s with status := status }

/-- Change a task. -/
def update (s : SessionRun) (i : Nat) (f : SessionTask → SessionTask) : SessionRun :=
  { s with tasks := s.tasks.modify i f }

/-- The section of `is_running`: a session that ended no longer counts. -/
def isRunning (s : SessionRun) : SessionRun :=
  match s.running with
  | some i =>
    match s.tasks[i]? with
    | some t => if t.phase = .ended then { s with running := none, desk := none } else s
    | none => s
  | none => s

/-- A command goes on, or is over. -/
def goOn (s : SessionRun) (j : Nat) (pc : CallPc) : SessionRun :=
  { s with calls := s.calls.set j pc }

def return_ (s : SessionRun) (j : Nat) : SessionRun := { s with calls := s.calls.eraseIdx j }

/-- The next step of command `j`, which is at `pc`. -/
def callStep (s : SessionRun) (j : Nat) : CallPc → Option SessionRun
  | .start kind =>
    let s := s.isRunning
    some (if s.running.isSome then s.return_ j else s.goOn j (.checked kind))
  | .checked kind =>
    let status := match kind with
      | .client => .connecting
      | .server => .serverRunning
    some ((s.set status).goOn j (.announced kind))
  | .announced kind =>
    let task : SessionTask := { kind := kind }
    some ((({ s with tasks := s.tasks ++ [task] } : SessionRun)).goOn j (.spawned s.tasks.length))
  | .spawned i => some ((s.update i fun t => { t with publisher := t.kind = .server }).goOn j
      (.handedOver i))
  | .handedOver i => some ({ s with running := some i }.return_ j)
  | .stop => some ({ s with running := none }.goOn j (.took s.running))
  | .took running => some ({ s with desk := none }.goOn j (.cleared running))
  | .cleared none => some (s.return_ j)
  | .cleared (some i) =>
    match s.tasks[i]? with
    | some ⟨.client, _, _, _, _, _, _⟩ =>
      some ((s.update i fun t => { t with told := true, aborted := true }).goOn j .aborting)
    | some ⟨.server, _, _, _, _, _, _⟩ =>
      some ((s.update i fun t => { t with told := true }).goOn j (.waiting i))
    | none => none
  | .aborting => some ((s.set .stopped).return_ j)
  | .waiting i =>
    match s.tasks[i]? with
    | some t => if t.phase = .ended then some (s.goOn j .waited) else none
    | none => none
  | .waited => some (if s.status = .error then s.return_ j else s.goOn j .mustSet)
  | .mustSet => some ((s.set .stopped).return_ j)

def step (s : SessionRun) : SessionEvent → Option SessionRun
  | .startCmd kind => some { s with calls := s.calls ++ [.start kind] }
  | .stopCmd => some { s with calls := s.calls ++ [.stop] }
  | .call j =>
    match s.calls[j]? with
    | some pc => s.callStep j pc
    | none => none
  | .refuse j =>
    match s.calls[j]? with
    | some (.checked .client) => some (s.return_ j)
    | _ => none
  | .grace j =>
    match s.calls[j]? with
    | some (.waiting i) =>
      match s.tasks[i]? with
      | some t => if t.phase ≠ .ended then
          some ((s.update i fun t => { t with aborted := true }).goOn j .waited) else none
      | none => none
    | _ => none
  | .poll => some s.isRunning
  | .report i status =>
    match s.tasks[i]? with
    | some t => if t.kind = .client ∧ t.phase = .up ∧ status ∈
        [.connecting, .connected, .awaitingApproval, .retrying] then some (s.set status) else none
    | none => none
  | .last i status =>
    match s.tasks[i]? with
    | some t => if t.kind = .client ∧ t.phase = .up ∧ status ∈ [.stopped, .fatal, .error] then
        some ((s.set status).update i fun t => { t with phase := .ending }) else none
    | none => none
  | .fail i =>
    match s.tasks[i]? with
    | some t => if t.kind = .server ∧ t.phase = .up then
        some ((s.set .error).update i fun t => { t with phase := .ending }) else none
    | none => none
  | .ready i =>
    match s.tasks[i]? with
    | some t => if t.kind = .server ∧ t.phase = .up then
        some (s.update i fun t => { t with phase := .ready, sent := true }) else none
    | none => none
  | .publish i =>
    match s.tasks[i]? with
    | some t => if t.publisher ∧ t.sent ∧ ¬ t.published then
        some ({ s with desk := some i }.update i fun t => { t with published := true }) else none
    | none => none
  | .finish i =>
    match s.tasks[i]? with
    -- on its own account, when it listens and was told, or at the next suspension
    | some t => if t.phase ≠ .ended ∧ (t.phase = .ending ∨ (t.phase = .ready ∧ t.told) ∨ t.aborted)
        then some (s.update i fun t => { t with phase := .ended }) else none
    | none => none

end SessionRun

def sessionRuns : Lts SessionRun SessionEvent where
  init s := s = {}
  step := SessionRun.step

namespace SessionRun

/-- Task `i` is one a command has in its hands, and has not told to stop. -/
def Held (s : SessionRun) (i : Nat) : Prop :=
  ∃ pc ∈ s.calls, pc = .spawned i ∨ pc = .handedOver i ∨ pc = .took (some i)
    ∨ pc = .cleared (some i)

/-- Nothing is under way: no command, no task that was told to stop or has set its last status,
no server that has yet to show its desk. -/
def Quiet (s : SessionRun) : Prop :=
  s.calls = [] ∧ ∀ t ∈ s.tasks, t.Alive →
    t.told = false ∧ t.phase ≠ .ending ∧ (t.kind = .server → t.published = true)

/-- What a front end relies on. -/
structure Sound (s : SessionRun) : Prop where
  one : ∀ (i j : Nat) (t u : SessionTask), s.tasks[i]? = some t → s.tasks[j]? = some u →
    t.Alive → u.Alive → i = j
  known : ∀ (i : Nat) (t : SessionTask), s.tasks[i]? = some t → t.Alive →
    s.running = some i ∨ t.told = true ∨ s.Held i
  desk : s.Quiet → ∀ i, s.desk = some i ↔
    s.running = some i ∧ ∃ t, s.tasks[i]? = some t ∧ t.kind = .server ∧ t.Alive
  status : s.Quiet → (s.status.over = true ↔
    ¬ ∃ i t, s.running = some i ∧ s.tasks[i]? = some t ∧ t.Alive)

/-- What a run has to be like: a command comes when no other is under way, a start only when
whatever still runs is recorded; a client reports, and a desk is handed over, before the task is
told to stop (and the status set, and the desk cleared). -/
def Orderly (s : SessionRun) : SessionEvent → Prop
  | .startCmd _ => s.calls = [] ∧ ∀ (i : Nat) (t : SessionTask), s.tasks[i]? = some t → t.Alive →
      s.running = some i
  | .stopCmd => s.calls = []
  | .report i _ => s.running = some i ∨ s.Held i ∨ .aborting ∈ s.calls
  | .publish i => s.running = some i ∨ ∃ pc ∈ s.calls, pc = .spawned i ∨ pc = .handedOver i
      ∨ pc = .took (some i)
  | _ => True

end SessionRun

/-! ## What a moment demands

Where the calls stand says what must be true of the task at that moment: which one is in charge,
what is recorded of it and what is shown. `demands` writes this down once. -/

/-- What has to hold, given what is recorded and the commands under way. -/
structure Demands where
  /-- The task recorded, or in a command's hands. Every other one is told to stop. -/
  charge : Option Nat
  /-- Whose doings the status shows, if it has to show anything. -/
  statusOf : Option (Option Nat)
  /-- Whose desk is shown, likewise. -/
  deskOf : Option (Option Nat)
  /-- Nothing else is alive. -/
  alone : Bool
  /-- The status says that something starts. -/
  starting : Bool
  /-- Nothing is recorded. -/
  vacant : Bool

/-- With two commands under way nothing is promised. -/
def demands (running : Option Nat) : List CallPc → Option Demands
  | [] | [.stop] => some ⟨running, some running, some running, false, false, false⟩
  | [.start _] => some ⟨running, some running, some running, true, false, false⟩
  | [.checked _] => some ⟨none, some none, some none, true, false, true⟩
  -- the status is that of a task still to come
  | [.announced _] => some ⟨none, none, some none, true, true, true⟩
  | [.spawned i] | [.handedOver i] =>
    some ⟨some i, some (some i), some (some i), false, false, true⟩
  | [.took none] => some ⟨none, some none, none, false, false, true⟩
  -- its desk is shown until it is cleared, and its status may change
  | [.took (some i)] => some ⟨some i, none, none, false, false, true⟩
  | [.cleared none] => some ⟨none, some none, some none, false, false, true⟩
  | [.cleared (some i)] => some ⟨some i, none, some none, false, false, true⟩
  -- the task in charge is told: there is none any more
  | [.aborting] | [.waiting _] | [.waited] | [.mustSet] =>
    some ⟨none, none, some none, false, false, true⟩
  | _ => none

/-- A start demands no loop and is by itself. -/
theorem demands_starting {running : Option Nat} {calls : List CallPc} {d : Demands}
    (h : demands running calls = some d) (hstarting : d.starting = true) :
    d.charge = none ∧ d.alone = true := by
  unfold demands at h
  split at h <;> cases h
  all_goals first | exact ⟨rfl, rfl⟩ | cases hstarting

/-- No more than one call is under way where the calls make demands at all. -/
theorem demands_calls {running : Option Nat} {calls : List CallPc} {d : Demands}
    (h : demands running calls = some d) : calls = [] ∨ ∃ pc, calls = [pc] := by
  match calls with
  | [] => exact .inl rfl
  | [pc] => exact .inr ⟨pc, rfl⟩
  | _ :: _ :: _ =>
    simp [demands] at h

/-- The demands of one of the calls are those of all. -/
theorem demands_mem {running : Option Nat} {calls : List CallPc} {pc : CallPc} {d : Demands}
    (h : demands running calls = some d) (hpc : pc ∈ calls) : demands running [pc] = some d := by
  rcases demands_calls h with hnone | ⟨pc', hone⟩
  · rw [hnone] at hpc
    cases hpc
  · rw [hone, List.mem_singleton] at hpc
    rw [hpc, ← hone]
    exact h

/-- What is recorded counts only between commands, and at their beginning. -/
theorem demands_recorded {i : Nat} {calls : List CallPc} {d : Demands}
    (h : demands (some i) calls = some d) :
    d.vacant = true ∨ ∃ alone, d = ⟨some i, some (some i), some (some i), alone, false, false⟩
      ∧ demands none calls = some ⟨none, some none, some none, alone, false, false⟩ := by
  unfold demands at h
  split at h <;> cases h
  all_goals first | exact .inl rfl | exact .inr ⟨_, rfl, rfl⟩

/-- A task in charge is recorded, or in a command's hands. -/
theorem demands_charge {running : Option Nat} {calls : List CallPc} {d : Demands} {i : Nat}
    (h : demands running calls = some d) (hi : d.charge = some i) :
    running = some i ∨ ∃ pc ∈ calls, pc = .spawned i ∨ pc = .handedOver i ∨ pc = .took (some i)
      ∨ pc = .cleared (some i) := by
  unfold demands at h
  split at h <;> cases h
  all_goals
    first
    | exact .inl hi
    | (cases hi; exact .inr ⟨_, List.mem_singleton.mpr rfl, by simp⟩)
    | cases hi

/-- A call that is to report a task's status has charge of it. -/
theorem demands_statusOf {running : Option Nat} {calls : List CallPc} {d : Demands} {i : Nat}
    (h : demands running calls = some d) (hi : d.statusOf = some (some i)) :
    d.charge = some i := by
  unfold demands at h
  split at h <;> cases h
  all_goals first | exact Option.some.inj hi | cases hi

namespace SessionRun

/-- The status is that of task `cur`: over once it has set its last. -/
def StatusOk (s : SessionRun) : Option Nat → Prop
  | some i => ∀ t, s.tasks[i]? = some t → (s.status.over = true ↔ t.phase = .ending ∨ t.phase = .ended)
  | none => s.status.over = true

def DeskOk (s : SessionRun) : Option Nat → Prop
  | some i => ∀ k, s.desk = some k ↔ k = i ∧ ∃ t, s.tasks[i]? = some t ∧ t.published = true
  | none => s.desk = none

structure Meets (s : SessionRun) (d : Demands) : Prop where
  known : ∀ (i : Nat) (t : SessionTask), s.tasks[i]? = some t → t.Alive →
    d.charge = some i ∨ (t.told = true ∧ d.alone = false)
  untold : ∀ i, d.charge = some i → ∃ t, s.tasks[i]? = some t ∧ t.told = false
  status : ∀ cur, d.statusOf = some cur → s.StatusOk cur
  starting : d.starting = true → s.status.over = false
  desk : ∀ cur, d.deskOf = some cur → s.DeskOk cur
  vacant : d.vacant = true → s.running = none

end SessionRun

/-- A task that has not ended is alive. -/
theorem SessionTask.alive_of {t : SessionTask} {p : TaskPhase} (h : t.phase = p)
    (hp : p ≠ .ended) : t.Alive := by
  unfold SessionTask.Alive
  rw [h]
  exact hp

/-- What is so of each task at any time. -/
structure SessionTask.Ok (t : SessionTask) : Prop where
  aborted : t.aborted = true → t.told = true
  client : t.kind = .client → t.sent = false ∧ t.phase ≠ .ready
  published : t.published = true → t.sent = true
  sent : t.told = false → t.sent = true → t.phase = .ready

namespace SessionRun

structure Inv (s : SessionRun) : Prop where
  ok : ∀ (i : Nat) (t : SessionTask), s.tasks[i]? = some t → t.Ok
  one : ∀ (i j : Nat) (t u : SessionTask), s.tasks[i]? = some t → s.tasks[j]? = some u →
    t.Alive → u.Alive → i = j
  meets : ∃ d, demands s.running s.calls = some d ∧ s.Meets d

/-! ## Steps of the tasks

A task reports, publishes its desk and ends. Each step changes one task only, which the update
lemmas say. -/

section

variable {s s' : SessionRun} {i : Nat} {t : SessionTask} {f : SessionTask → SessionTask}
  {d : Demands}

/-- A step of a task is one of a task that is there, and may take it. -/
theorem of_task {p : SessionTask → Prop} [DecidablePred p] {g : SessionTask → SessionRun}
    (h : (match s.tasks[i]? with
      | some t => if p t then some (g t) else none
      | none => none) = some s') : ∃ t, s.tasks[i]? = some t ∧ p t ∧ s' = g t := by
  cases hi : s.tasks[i]? with
  | none => simp [hi] at h
  | some t =>
    simp only [hi, Option.ite_none_right_eq_some] at h
    exact ⟨t, rfl, h.1, (Option.some.inj h.2).symm⟩


/-- A task after one was updated is that one, or as it was. -/
theorem update_get_cases {k : Nat} {u : SessionTask}
    (h : (s.update i f).tasks[k]? = some u) (hi : s.tasks[i]? = some t) :
    (k = i ∧ u = f t) ∨ (k ≠ i ∧ s.tasks[k]? = some u) :=
  Table.of_modify hi h

/-- The task that was updated is found as it is now. -/
theorem update_get_self (hi : s.tasks[i]? = some t) : (s.update i f).tasks[i]? = some (f t) := by
  show (s.tasks.modify i f)[i]? = some (f t)
  rw [List.getElem?_modify_eq, hi]
  rfl

/-- Every other task is as it was. -/
theorem update_get_ne {k : Nat} (hk : k ≠ i) : (s.update i f).tasks[k]? = s.tasks[k]? :=
  List.getElem?_modify_ne _ _ (Ne.symm hk)

/-- A step of one task that brings nothing to life: there is still one at a time. -/
theorem Inv.tasks_update (h : s.Inv) (hi : s.tasks[i]? = some t) (hok : (f t).Ok)
    (halive : (f t).Alive → t.Alive) :
    (∀ (k : Nat) (u : SessionTask), (s.update i f).tasks[k]? = some u → u.Ok)
    ∧ ∀ (k l : Nat) (u v : SessionTask), (s.update i f).tasks[k]? = some u →
      (s.update i f).tasks[l]? = some v → u.Alive → v.Alive → k = l := by
  -- whatever is alive was so before
  have hwas : ∀ (k : Nat) (u : SessionTask), (s.update i f).tasks[k]? = some u → u.Alive →
      ∃ v, s.tasks[k]? = some v ∧ v.Alive := by
    intro k u hk hu
    rcases update_get_cases hk hi with ⟨rfl, rfl⟩ | ⟨_, hk⟩
    · exact ⟨t, hi, halive hu⟩
    · exact ⟨u, hk, hu⟩
  refine ⟨fun k u hk => ?_, fun k l u v hk hl hu hv => ?_⟩
  · rcases update_get_cases hk hi with ⟨rfl, rfl⟩ | ⟨_, hk⟩
    · exact hok
    · exact h.ok k u hk
  · obtain ⟨u', hk', hu'⟩ := hwas k u hk hu
    obtain ⟨v', hl', hv'⟩ := hwas l v hl hv
    exact h.one k l u' v' hk' hl' hu' hv'

/-- A step of one task, that keeps what there is of it, and leaves what is recorded and the
commands as they are. -/
theorem Inv.update (h : s.Inv) (status : Status) (desk : Option Nat) (hi : s.tasks[i]? = some t)
    (hok : (f t).Ok) (halive : (f t).Alive → t.Alive) (htold : (f t).told = t.told)
    (hmeets : ∀ d, demands s.running s.calls = some d → s.Meets d →
      (∀ cur, d.statusOf = some cur →
        ({ s with status := status, desk := desk }.update i f).StatusOk cur)
      ∧ (d.starting = true → status.over = false)
      ∧ ∀ cur, d.deskOf = some cur →
        ({ s with status := status, desk := desk }.update i f).DeskOk cur) :
    ({ s with status := status, desk := desk }.update i f).Inv := by
  obtain ⟨hall, hone⟩ := h.tasks_update hi hok halive
  obtain ⟨d, hd, hm⟩ := h.meets
  obtain ⟨hstatus, hstarting, hdesk⟩ := hmeets d hd hm
  refine ⟨hall, hone, d, hd, fun k u hk hu => ?_, fun k hk => ?_, hstatus, hstarting, hdesk,
    hm.vacant⟩
  · rcases update_get_cases hk hi with ⟨rfl, rfl⟩ | ⟨_, hk⟩
    · rw [htold]
      exact hm.known k t hi (halive hu)
    · exact hm.known k u hk hu
  · obtain ⟨u, hu, huntold⟩ := hm.untold k hk
    by_cases hki : k = i
    · subst hki
      obtain rfl : t = u := Option.some.inj (hi.symm.trans hu)
      exact ⟨f t, update_get_self hi, htold.trans huntold⟩
    · exact ⟨u, (update_get_ne hki).trans hu, huntold⟩

/-- The status a task is measured by does not change where neither it nor the task's last word
does. -/
theorem StatusOk.update {cur : Option Nat} {desk : Option Nat} (hi : s.tasks[i]? = some t)
    (hphase : (f t).phase = .ending ∨ (f t).phase = .ended ↔ t.phase = .ending ∨ t.phase = .ended)
    (h : s.StatusOk cur) : ({ s with desk := desk }.update i f).StatusOk cur := by
  cases cur with
  | none => exact h
  | some k =>
    intro u hu
    rcases update_get_cases hu hi with ⟨rfl, rfl⟩ | ⟨_, hu⟩
    · rw [hphase]
      exact h t hi
    · exact h u hu

/-- What is published of the desk is not touched by a task's other fields. -/
theorem DeskOk.update {cur : Option Nat} {status : Status} (hi : s.tasks[i]? = some t)
    (hpublished : (f t).published = t.published) (h : s.DeskOk cur) :
    ({ s with status := status }.update i f).DeskOk cur := by
  cases cur with
  | none => exact h
  | some k =>
    intro l
    refine (h l).trans (and_congr_right fun _ => ⟨fun ⟨u, hu, hp⟩ => ?_, fun ⟨u, hu, hp⟩ => ?_⟩)
    · by_cases hki : k = i
      · subst hki
        obtain rfl : t = u := Option.some.inj (hi.symm.trans hu)
        exact ⟨f t, update_get_self hi, hpublished.trans hp⟩
      · exact ⟨u, (update_get_ne hki).trans hu, hp⟩
    · rcases update_get_cases hu hi with ⟨rfl, rfl⟩ | ⟨_, hu⟩
      · exact ⟨t, hi, hpublished ▸ hp⟩
      · exact ⟨u, hu, hp⟩

/-- The task sets its last status. -/
theorem Inv.last {status : Status} (h : s.Inv) (hi : s.tasks[i]? = some t) (hup : t.phase = .up)
    (hover : status.over = true) :
    ((s.set status).update i fun t => { t with phase := .ending }).Inv := by
  have hok := h.ok i t hi
  have halive : t.Alive := SessionTask.alive_of hup nofun
  refine h.update status s.desk hi ?_ (fun _ => halive) rfl
    fun d hd hm => ⟨fun cur hcur => ?_, fun hstarting => ?_, fun cur hcur => ?_⟩
  · refine ⟨hok.aborted, fun hk => ⟨(hok.client hk).1, nofun⟩, hok.published, fun hun hsent => ?_⟩
    have := hok.sent hun hsent
    rw [hup] at this
    cases this
  · cases cur with
    | none => exact hover
    | some k =>
      intro u hu
      refine iff_of_true hover ?_
      rcases update_get_cases hu hi with ⟨rfl, rfl⟩ | ⟨hki, hu⟩
      · exact .inl rfl
      · -- the task the status is about is another one, so it has ended
        by_contra hne
        exact hki (h.one k i u t hu hi (fun hended => hne (.inr hended)) halive)
  -- while a start is announced nothing is alive
  · obtain ⟨hnone, halone⟩ := demands_starting hd hstarting
    rcases hm.known i t hi halive with hcharge | ⟨_, hnot⟩
    · rw [hnone] at hcharge
      cases hcharge
    · rw [halone] at hnot
      cases hnot
  · exact (hm.desk cur hcur).update hi rfl

/-- A client reports while it is recorded or in a command's hands. -/
theorem Inv.report {status : Status} (h : s.Inv) (hi : s.tasks[i]? = some t) (hup : t.phase = .up)
    (hlive : status.over = false)
    (hown : ∀ d, demands s.running s.calls = some d → ∀ cur, d.statusOf = some cur →
      cur = some i) : (s.set status).Inv := by
  have hsame : ({ s with status := status }.update i id) = s.set status := by
    show ({ s with status := status, tasks := s.tasks.modify i id } : SessionRun) = _
    rw [List.modify_id]
    rfl
  rw [← hsame]
  refine h.update status s.desk hi (h.ok i t hi) id rfl
    fun d hd hm => ⟨fun cur hcur => ?_, fun _ => hlive, fun cur hcur => ?_⟩
  -- the status is about this task, which is up
  · obtain rfl := hown d hd cur hcur
    intro u hu
    refine iff_of_false (by simp [show ({ s with status := status }.update i id).status = status
      from rfl, hlive]) ?_
    rcases update_get_cases hu hi with ⟨_, rfl⟩ | ⟨hne, _⟩
    · simp [hup]
    · exact absurd rfl hne
  · exact (hm.desk cur hcur).update hi rfl

/-- A server listens. -/
theorem Inv.ready (h : s.Inv) (hi : s.tasks[i]? = some t) (hkind : t.kind = .server)
    (hup : t.phase = .up) :
    (s.update i fun t => { t with phase := .ready, sent := true }).Inv := by
  have hok := h.ok i t hi
  have halive : t.Alive := SessionTask.alive_of hup nofun
  refine h.update s.status s.desk hi ?_ (fun _ => halive) rfl
    fun d hd hm => ⟨fun cur hcur => ?_, hm.starting,
      fun cur hcur => (hm.desk cur hcur).update hi rfl⟩
  · refine ⟨hok.aborted, fun hclient => ?_, fun _ => rfl, fun _ _ => rfl⟩
    rw [hkind] at hclient
    cases hclient
  · exact (hm.status cur hcur).update hi (by simp [hup])

/-- The desk is handed over while its server is recorded or being started, or about to be
cleared. -/
theorem Inv.publish (h : s.Inv) (hi : s.tasks[i]? = some t) (hsent : t.sent = true)
    (hown : ∀ d, demands s.running s.calls = some d → ∀ cur, d.deskOf = some cur → cur = some i) :
    ({ s with desk := some i }.update i fun t => { t with published := true }).Inv := by
  have hok := h.ok i t hi
  refine h.update s.status (some i) hi ?_ id rfl
    fun d hd hm => ⟨fun cur hcur => (hm.status cur hcur).update hi Iff.rfl, hm.starting,
      fun cur hcur => ?_⟩
  · exact ⟨hok.aborted, fun hclient => absurd hsent (by simp [(hok.client hclient).1]),
      fun _ => hsent, hok.sent⟩
  · obtain rfl := hown d hd cur hcur
    intro k
    refine ⟨fun hk => ⟨(Option.some.inj hk).symm, _, update_get_self hi, rfl⟩, fun hk => ?_⟩
    rw [hk.1]
    rfl

/-- A task ends, after its last status, or because it was told to. -/
theorem Inv.finish (h : s.Inv) (hi : s.tasks[i]? = some t)
    (hend : t.phase = .ending ∨ (t.phase = .ready ∧ t.told = true) ∨ t.aborted = true)
    (halive : t.Alive) : (s.update i fun t => { t with phase := .ended }).Inv := by
  have hok := h.ok i t hi
  have htold : t.phase = .ending ∨ t.told = true := by
    rcases hend with hending | ⟨_, htold⟩ | haborted
    · exact .inl hending
    · exact .inr htold
    · exact .inr (hok.aborted haborted)
  refine h.update s.status s.desk hi ?_ (fun _ => halive) rfl
    fun d hd hm => ⟨fun cur hcur => ?_, hm.starting,
      fun cur hcur => (hm.desk cur hcur).update hi rfl⟩
  · refine ⟨hok.aborted, fun hk => ⟨(hok.client hk).1, nofun⟩, hok.published, fun hun hsent => ?_⟩
    -- one that was not told has set its last status, and never listened
    have hready := hok.sent hun hsent
    rcases htold with hending | htold
    · rw [hready] at hending
      cases hending
    · rw [hun] at htold
      cases htold
  · have hstatus := hm.status cur hcur
    rcases htold with hending | htold
    · exact hstatus.update hi (by simp [hending])
    · cases cur with
      | none => exact hstatus
      | some k =>
        intro u hu
        rcases update_get_cases hu hi with ⟨rfl, _⟩ | ⟨_, hu⟩
        · obtain ⟨v, hv, huntold⟩ := hm.untold k (demands_statusOf hd hcur)
          obtain rfl : t = v := Option.some.inj (hi.symm.trans hv)
          rw [htold] at huntold
          cases huntold
        · exact hstatus u hu

/-! ## Steps of the commands

Start and stop go on step by step, and each step's demands follow from those of the step before.
-/

/-- The tasks are as they were, and what is demanded now is met. -/
theorem Inv.of_meets (h : s.Inv) (htasks : s'.tasks = s.tasks)
    (hd : demands s'.running s'.calls = some d) (hm : s'.Meets d) : s'.Inv := by
  refine ⟨?_, ?_, d, hd, hm⟩
  · rw [htasks]
    exact h.ok
  · rw [htasks]
    exact h.one

/-- The demands of the calls are met by the state as the invariant has it. -/
theorem Inv.meets_of (h : s.Inv) (hd : demands s.running s.calls = some d) : s.Meets d := by
  obtain ⟨d', hd', hm⟩ := h.meets
  obtain rfl : d = d' := Option.some.inj (hd.symm.trans hd')
  exact hm

/-- What is met where the commands are known. -/
theorem Inv.meets_at {calls : List CallPc} (h : s.Inv) (hcalls : s.calls = calls)
    (hd : demands s.running calls = some d) : s.Meets d :=
  h.meets_of (hcalls ▸ hd)

/-- The command under way goes on, and what its next place demands is met. -/
theorem Inv.went_on {pc pc' : CallPc} (h : s.Inv) (hcalls : s.calls = [pc])
    (htasks : s'.tasks = s.tasks) (hs : s'.calls = s.calls.set 0 pc')
    (hd : demands s'.running [pc'] = some d) (hm : s'.Meets d) : s'.Inv := by
  refine h.of_meets htasks ?_ hm
  rw [hs, hcalls]
  exact hd

/-- The command under way is over, and what is demanded between commands is met. -/
theorem Inv.returned {pc : CallPc} {running : Option Nat} (h : s.Inv) (hcalls : s.calls = [pc])
    (htasks : s'.tasks = s.tasks) (hs : s'.calls = s.calls.eraseIdx 0)
    (hrunning : s'.running = running)
    (hm : s'.Meets ⟨running, some running, some running, false, false, false⟩) : s'.Inv := by
  refine h.of_meets htasks ?_ hm
  rw [hs, hcalls, hrunning]
  rfl

/-- Where a task is recorded, it is the one in charge, shown with its status and desk; and it can
be forgotten. -/
theorem Meets.recorded {i : Nat} (hm : s.Meets d) (hd : demands s.running s.calls = some d)
    (hrunning : s.running = some i) :
    ∃ alone, d = ⟨some i, some (some i), some (some i), alone, false, false⟩
      ∧ demands none s.calls = some ⟨none, some none, some none, alone, false, false⟩ := by
  rw [hrunning] at hd
  refine (demands_recorded hd).resolve_left fun hvacant => ?_
  have := hm.vacant hvacant
  rw [hrunning] at this
  cases this

/-- A session that ended is forgotten. -/
theorem Inv.isRunning (h : s.Inv) : s.isRunning.Inv := by
  unfold SessionRun.isRunning
  cases hrunning : s.running with
  | none => exact h
  | some i =>
    cases hi : s.tasks[i]? with
    | none =>
      simp only [hi]
      exact h
    | some t =>
      by_cases hended : t.phase = .ended
      · simp only [hi, if_pos hended]
        obtain ⟨d, hd, hm⟩ := h.meets
        obtain ⟨alone, rfl, hnone⟩ := hm.recorded hd hrunning
        refine h.of_meets rfl hnone ⟨fun k u hk hu => ?_, nofun, fun cur hcur => ?_, nofun,
          fun cur hcur => ?_, nofun⟩
        · rcases hm.known k u hk hu with hcharge | htold
          · obtain rfl : i = k := Option.some.inj hcharge
            obtain rfl : t = u := Option.some.inj (hi.symm.trans hk)
            exact absurd hended hu
          · exact .inr htold
        · obtain rfl := Option.some.inj hcur
          exact (hm.status (some i) rfl t hi).mpr (.inr hended)
        · obtain rfl := Option.some.inj hcur
          rfl
      · simp only [hi, if_neg hended]
        exact h

/-- A look whether a session runs is no call. -/
theorem isRunning_calls : s.isRunning.calls = s.calls := by
  unfold SessionRun.isRunning
  split
  · split
    · split <;> rfl
    · rfl
  · rfl

/-- A command that told task `i` to stop, or aborted it. -/
theorem Inv.tell (h : s.Inv) (hi : s.tasks[i]? = some t)
    (hcalls : s.calls = [.cleared (some i)]) (hf : (f t).Ok) (hphase : (f t).phase = t.phase)
    (htold : (f t).told = true) {pc : CallPc}
    (hd : demands none [pc] = some ⟨none, none, some none, false, false, true⟩) :
    ((s.update i f).goOn 0 pc).Inv := by
  have hm := h.meets_at (d := ⟨some i, none, some none, false, false, true⟩) hcalls rfl
  have hrunning : s.running = none := hm.vacant rfl
  have halive : (f t).Alive → t.Alive := by
    unfold SessionTask.Alive
    rw [hphase]
    exact id
  obtain ⟨hall, hone⟩ := h.tasks_update hi hf halive
  refine ⟨hall, hone, ⟨none, none, some none, false, false, true⟩, ?_, fun k u hk hu => ?_, nofun,
    nofun, nofun, fun cur hcur => ?_, fun _ => hrunning⟩
  · show demands s.running (s.calls.set 0 pc) = _
    rw [hrunning, hcalls]
    exact hd
  · rcases update_get_cases hk hi with ⟨_, rfl⟩ | ⟨hki, hk⟩
    · exact .inr ⟨htold, rfl⟩
    · rcases hm.known k u hk hu with hcharge | htold
      · exact absurd (Option.some.inj hcharge).symm hki
      · exact .inr htold
  · obtain rfl := Option.some.inj hcur
    exact hm.desk none rfl

/-- A new task, where nothing is alive. -/
theorem Inv.spawn {kind : TaskKind} (h : s.Inv) (hcalls : s.calls = [.announced kind]) :
    (({ s with tasks := s.tasks ++ [({ kind := kind } : SessionTask)] } : SessionRun).goOn 0
      (.spawned s.tasks.length)).Inv := by
  have hm := h.meets_at (d := ⟨none, none, some none, true, true, true⟩) hcalls rfl
  -- every task there was is over
  have hdead : ∀ (k : Nat) (u : SessionTask), s.tasks[k]? = some u → ¬ u.Alive := by
    intro k u hk hu
    rcases hm.known k u hk hu with hcharge | ⟨_, hnot⟩
    · cases hcharge
    · cases hnot
  have hnew : (s.tasks ++ [({ kind := kind } : SessionTask)])[s.tasks.length]?
      = some { kind := kind } := List.getElem?_concat_length
  -- field by field; what is asked of a task is asked of the new one alone
  refine ⟨fun k u hk => ?_, fun k l u v hk hl hu hv => ?_, ⟨some s.tasks.length,
    some (some s.tasks.length), some (some s.tasks.length), false, false, true⟩, ?_,
    fun k u hk hu => ?_, fun k hk => ?_, fun cur hcur => ?_, nofun, fun cur hcur => ?_,
    fun _ => hm.vacant rfl⟩
  · rcases Table.of_concat hk with hk | ⟨_, rfl⟩
    · exact h.ok k u hk
    · exact ⟨nofun, fun _ => ⟨rfl, nofun⟩, nofun, nofun⟩
  · rcases Table.of_concat hk with hk | ⟨rfl, _⟩
    · exact absurd hu (hdead k u hk)
    · rcases Table.of_concat hl with hl | ⟨rfl, _⟩
      · exact absurd hv (hdead l v hl)
      · rfl
  · show demands s.running (s.calls.set 0 _) = _
    rw [hcalls]
    rfl
  · rcases Table.of_concat hk with hk | ⟨rfl, _⟩
    · exact absurd hu (hdead k u hk)
    · exact .inl rfl
  · obtain rfl := Option.some.inj hk
    exact ⟨_, hnew, rfl⟩
  -- the new task is in charge, and has not started yet
  · obtain rfl := Option.some.inj hcur
    intro u hu
    obtain rfl := Option.some.inj (hnew.symm.trans hu)
    have hlive := hm.starting rfl
    exact iff_of_false (by simp [goOn, hlive]) nofun
  -- it has no desk to show
  · obtain rfl := Option.some.inj hcur
    intro k
    have hnone : s.desk = none := hm.desk none rfl
    refine iff_of_false (by simp [goOn, hnone]) ?_
    rintro ⟨-, u, hu, hp⟩
    obtain rfl := Option.some.inj (hnew.symm.trans hu)
    cases hp

/-- A command goes on to where the same is demanded. -/
theorem Inv.goOn {pc pc' : CallPc} (h : s.Inv) (hcalls : s.calls = [pc])
    (hsame : demands s.running [pc'] = demands s.running [pc]) : (s.goOn 0 pc').Inv := by
  obtain ⟨d, hd, hm⟩ := h.meets
  refine h.of_meets rfl (d := d) ?_
    ⟨hm.known, hm.untold, hm.status, hm.starting, hm.desk, hm.vacant⟩
  show demands s.running (s.calls.set 0 pc') = some d
  rw [← hd, hcalls]
  exact hsame

/-- The publisher of a server's desk is spawned. -/
theorem Inv.handOver {i : Nat} (h : s.Inv) (hcalls : s.calls = [.spawned i]) :
    ((s.update i fun t => { t with publisher := t.kind = .server }).goOn 0 (.handedOver i)).Inv := by
  have hm : s.Meets ⟨some i, some (some i), some (some i), false, false, true⟩ :=
    h.meets_at hcalls rfl
  obtain ⟨t, hi, -⟩ := hm.untold i rfl
  have hok := h.ok i t hi
  -- the task first, the place of the command after it
  have hstep : (s.update i fun t => { t with publisher := t.kind = .server }).Inv :=
    h.update s.status s.desk hi
      ⟨hok.aborted, hok.client, hok.published, hok.sent⟩ id rfl
      fun d hd hm => ⟨fun cur hcur => (hm.status cur hcur).update hi Iff.rfl, hm.starting,
        fun cur hcur => (hm.desk cur hcur).update hi rfl⟩
  exact hstep.goOn hcalls rfl

/-- The grace period is over, and a server that was told is aborted. -/
theorem Inv.grace {i : Nat} (h : s.Inv) (hcalls : s.calls = [.waiting i])
    (hi : s.tasks[i]? = some t) (halive : t.Alive) :
    ((s.update i fun t => { t with aborted := true }).goOn 0 .waited).Inv := by
  have hm := h.meets_at (d := ⟨none, none, some none, false, false, true⟩) hcalls rfl
  have hok := h.ok i t hi
  have htold : t.told = true := by
    rcases hm.known i t hi halive with hcharge | htold
    · cases hcharge
    · exact htold.1
  have hstep : (s.update i fun t => { t with aborted := true }).Inv :=
    h.update s.status s.desk hi
      ⟨fun _ => htold, hok.client, hok.published, hok.sent⟩ id rfl
      fun d hd hm => ⟨fun cur hcur => (hm.status cur hcur).update hi Iff.rfl, hm.starting,
        fun cur hcur => (hm.desk cur hcur).update hi rfl⟩
  exact hstep.goOn hcalls rfl

/-- A check that finds nothing running, or a session that does. -/
theorem Inv.check {kind : TaskKind} (h : s.Inv) (hcalls : s.calls = [.start kind]) :
    (if s.running.isSome then s.return_ 0 else s.goOn 0 (.checked kind)).Inv := by
  have hm : s.Meets ⟨s.running, some s.running, some s.running, true, false, false⟩ :=
    h.meets_at hcalls rfl
  -- a start returns where a session runs, and goes on where none does
  by_cases hsome : s.running.isSome
  · rw [if_pos hsome]
    exact h.returned hcalls rfl rfl rfl
      ⟨fun k u hk hu => (hm.known k u hk hu).imp_right (fun hnot => by cases hnot.2),
        hm.untold, hm.status, nofun, hm.desk, nofun⟩
  · rw [if_neg hsome]
    have hnone : s.running = none := by simpa using hsome
    rw [hnone] at hm
    exact h.went_on hcalls rfl rfl rfl
      ⟨hm.known, hm.untold, hm.status, nofun, hm.desk, fun _ => hnone⟩

/-- Every step of a command, when no other is under way. -/
theorem Inv.callStep {pc : CallPc} (h : s.Inv) (hcalls : s.calls = [pc])
    (hl : s.callStep 0 pc = some s') : s'.Inv := by
  cases pc with
  | start kind =>
    obtain rfl := Option.some.inj hl
    exact Inv.check h.isRunning (isRunning_calls.trans hcalls)
  | checked kind =>
    have hm := h.meets_at (d := ⟨none, some none, some none, true, false, true⟩) hcalls rfl
    obtain rfl := Option.some.inj hl
    -- from here on the status says that something starts
    refine h.went_on hcalls rfl rfl rfl
      ⟨hm.known, hm.untold, nofun, fun _ => ?_, hm.desk, hm.vacant⟩
    cases kind <;> rfl
  | announced kind =>
    obtain rfl := Option.some.inj hl
    exact h.spawn hcalls
  | spawned i =>
    obtain rfl := Option.some.inj hl
    exact h.handOver hcalls
  | handedOver i =>
    have hm : s.Meets ⟨some i, some (some i), some (some i), false, false, true⟩ :=
      h.meets_at hcalls rfl
    obtain rfl := Option.some.inj hl
    exact h.returned hcalls rfl rfl rfl ⟨hm.known, hm.untold, hm.status, nofun, hm.desk, nofun⟩
  | stop =>
    have hm : s.Meets ⟨s.running, some s.running, some s.running, false, false, false⟩ :=
      h.meets_at hcalls rfl
    obtain rfl := Option.some.inj hl
    -- what was recorded is now in the command's hands
    cases hrunning : s.running with
    | none =>
      rw [hrunning] at hm
      exact h.went_on hcalls rfl rfl rfl
        ⟨hm.known, hm.untold, hm.status, nofun, nofun, fun _ => rfl⟩
    | some i =>
      rw [hrunning] at hm
      exact h.went_on hcalls rfl rfl rfl
        ⟨hm.known, hm.untold, nofun, nofun, nofun, fun _ => rfl⟩
  | took running =>
    obtain rfl := Option.some.inj hl
    cases running with
    | none =>
      have hm := h.meets_at (d := ⟨none, some none, none, false, false, true⟩) hcalls rfl
      refine h.went_on hcalls rfl rfl rfl
        ⟨hm.known, hm.untold, hm.status, nofun, fun cur hcur => ?_, hm.vacant⟩
      obtain rfl := Option.some.inj hcur
      rfl
    | some i =>
      have hm := h.meets_at (d := ⟨some i, none, none, false, false, true⟩) hcalls rfl
      refine h.went_on hcalls rfl rfl rfl
        ⟨hm.known, hm.untold, nofun, nofun, fun cur hcur => ?_, hm.vacant⟩
      obtain rfl := Option.some.inj hcur
      rfl
  | cleared running =>
    cases running with
    | none =>
      have hm := h.meets_at (d := ⟨none, some none, some none, false, false, true⟩) hcalls rfl
      obtain rfl := Option.some.inj hl
      have hrunning : s.running = none := hm.vacant rfl
      exact h.returned hcalls rfl rfl hrunning
        ⟨hm.known, hm.untold, hm.status, nofun, hm.desk, nofun⟩
    | some i =>
      unfold SessionRun.callStep at hl
      cases hi : s.tasks[i]? with
      | none => simp [hi] at hl
      | some t =>
        have hok := h.ok i t hi
        obtain ⟨kind, phase, told, aborted, sent, publisher, published⟩ := t
        cases kind with
        | client =>
          simp only [hi] at hl
          obtain rfl := Option.some.inj hl
          exact h.tell hi hcalls ⟨fun _ => rfl, hok.client, hok.published, by simp⟩ rfl rfl rfl
        | server =>
          simp only [hi] at hl
          obtain rfl := Option.some.inj hl
          exact h.tell hi hcalls ⟨fun _ => rfl, hok.client, hok.published, by simp⟩ rfl rfl rfl
  | aborting | mustSet =>
    have hm := h.meets_at (d := ⟨none, none, some none, false, false, true⟩) hcalls rfl
    obtain rfl := Option.some.inj hl
    have hrunning : s.running = none := hm.vacant rfl
    refine h.returned hcalls rfl rfl hrunning
      ⟨hm.known, hm.untold, fun cur hcur => ?_, nofun, hm.desk, nofun⟩
    obtain rfl := Option.some.inj hcur
    rfl
  | waiting i =>
    obtain ⟨_, _, _, rfl⟩ := of_task hl
    exact h.goOn hcalls rfl
  | waited =>
    have hm := h.meets_at (d := ⟨none, none, some none, false, false, true⟩) hcalls rfl
    obtain rfl := Option.some.inj hl
    have hrunning : s.running = none := hm.vacant rfl
    -- a server that failed has said so, and the stop leaves it at that
    by_cases herror : s.status = .error
    · rw [if_pos herror]
      refine h.returned hcalls rfl rfl hrunning
        ⟨hm.known, hm.untold, fun cur hcur => ?_, nofun, hm.desk, nofun⟩
      obtain rfl := Option.some.inj hcur
      show s.status.over = true
      rw [herror]
      rfl
    · rw [if_neg herror]
      exact h.goOn hcalls rfl

/-! ## Orderly runs

Where no two commands are under way at once and no late task speaks, status, desk and task agree
whenever nothing is under way. -/

/-- Whoever may report is the one the status is about, if it is about anybody. -/
theorem Orderly.report {i : Nat} {status : Status} (hok : Orderly s (.report i status))
    (hm : s.Meets d) (hd : demands s.running s.calls = some d) :
    ∀ cur, d.statusOf = some cur → cur = some i := by
  intro cur hcur
  rcases hok with hrunning | ⟨pc, hpc, hheld⟩ | habort
  · obtain ⟨_, rfl, _⟩ := hm.recorded hd hrunning
    exact (Option.some.inj hcur).symm
  · have hat := demands_mem hd hpc
    rcases hheld with rfl | rfl | rfl | rfl
    · obtain rfl := Option.some.inj hat
      exact (Option.some.inj hcur).symm
    · obtain rfl := Option.some.inj hat
      exact (Option.some.inj hcur).symm
    · obtain rfl := Option.some.inj hat
      cases hcur
    · obtain rfl := Option.some.inj hat
      cases hcur
  · -- the stop has yet to set its own status
    obtain rfl := Option.some.inj (demands_mem hd habort)
    cases hcur

/-- And whoever's desk may come is the one whose desk is shown. -/
theorem Orderly.publish {i : Nat} (hok : Orderly s (.publish i)) (hm : s.Meets d)
    (hd : demands s.running s.calls = some d) : ∀ cur, d.deskOf = some cur → cur = some i := by
  intro cur hcur
  rcases hok with hrunning | ⟨pc, hpc, hheld⟩
  · obtain ⟨_, rfl, _⟩ := hm.recorded hd hrunning
    exact (Option.some.inj hcur).symm
  · have hat := demands_mem hd hpc
    rcases hheld with rfl | rfl | rfl
    · obtain rfl := Option.some.inj hat
      exact (Option.some.inj hcur).symm
    · obtain rfl := Option.some.inj hat
      exact (Option.some.inj hcur).symm
    · -- the stop has yet to clear the desk
      obtain rfl := Option.some.inj hat
      cases hcur

/-- A command that is under way is the only one. -/
theorem Inv.only {j : Nat} {pc : CallPc} (h : s.Inv) (hj : s.calls[j]? = some pc) :
    j = 0 ∧ s.calls = [pc] := by
  obtain ⟨d, hd, -⟩ := h.meets
  rcases demands_calls hd with hnone | ⟨pc', hone⟩
  · rw [hnone] at hj
    cases hj
  · rw [hone] at hj ⊢
    cases j with
    | zero =>
      obtain rfl := Option.some.inj hj
      exact ⟨rfl, rfl⟩
    | succ j => cases hj

/-- **Every step of an orderly run keeps the invariant.** -/
theorem Inv.step {l : SessionEvent} (h : s.Inv) (hok : Orderly s l) (hl : s.step l = some s') :
    s'.Inv := by
  -- commands come when nothing is under way; the rest is the call's, or the task's
  cases l with
  | startCmd kind =>
    obtain ⟨hcalls, hrecorded⟩ := hok
    have hm : s.Meets ⟨s.running, some s.running, some s.running, false, false, false⟩ :=
      h.meets_at hcalls rfl
    obtain rfl := Option.some.inj hl
    refine h.of_meets (d := ⟨s.running, some s.running, some s.running, true, false, false⟩) rfl ?_
      ⟨fun k u hk hu => .inl (hrecorded k u hk hu), hm.untold, hm.status, nofun, hm.desk, nofun⟩
    show demands s.running (s.calls ++ [_]) = _
    rw [hcalls]
    rfl
  | stopCmd =>
    have hcalls : s.calls = [] := hok
    have hm : s.Meets ⟨s.running, some s.running, some s.running, false, false, false⟩ :=
      h.meets_at hcalls rfl
    obtain rfl := Option.some.inj hl
    refine h.of_meets (d := ⟨s.running, some s.running, some s.running, false, false, false⟩) rfl
      ?_ ⟨hm.known, hm.untold, hm.status, nofun, hm.desk, nofun⟩
    show demands s.running (s.calls ++ [_]) = _
    rw [hcalls]
    rfl
  | call j =>
    unfold SessionRun.step at hl
    cases hj : s.calls[j]? with
    | none => simp [hj] at hl
    | some pc =>
      obtain ⟨rfl, hcalls⟩ := h.only hj
      simp only [hj] at hl
      exact h.callStep hcalls hl
  | refuse j =>
    have hl : (match s.calls[j]? with
      | some (.checked .client) => some (s.return_ j)
      | _ => none) = some s' := hl
    split at hl
    · next hj =>
      obtain ⟨rfl, hcalls⟩ := h.only hj
      have hm := h.meets_at (d := ⟨none, some none, some none, true, false, true⟩) hcalls rfl
      -- a start that is refused leaves no session, as before
      have hrunning : s.running = none := hm.vacant rfl
      obtain rfl := Option.some.inj hl
      exact h.returned hcalls rfl rfl hrunning
        ⟨fun k u hk hu => (hm.known k u hk hu).imp_right (fun hnot => by cases hnot.2), hm.untold,
          hm.status, nofun, hm.desk, nofun⟩
    · cases hl
  | grace j =>
    have hl : (match s.calls[j]? with
      | some (.waiting i) =>
        match s.tasks[i]? with
        | some t => if t.phase ≠ .ended then
            some ((s.update i fun t => { t with aborted := true }).goOn j .waited) else none
        | none => none
      | _ => none) = some s' := hl
    split at hl
    · next i hj =>
      obtain ⟨rfl, hcalls⟩ := h.only hj
      obtain ⟨_, hi, halive, rfl⟩ := of_task hl
      exact h.grace hcalls hi halive
    · cases hl
  | poll =>
    obtain rfl := Option.some.inj hl
    exact h.isRunning
  | report i status =>
    obtain ⟨_, hi, ⟨_, hup, hstatus⟩, rfl⟩ := of_task hl
    -- a status of a task that goes on
    have hlive : status.over = false := by
      revert hstatus
      cases status <;> decide
    exact h.report hi hup hlive fun d hd => hok.report (h.meets_of hd) hd
  | last i status =>
    obtain ⟨_, hi, ⟨_, hup, hstatus⟩, rfl⟩ := of_task hl
    -- and one of a task that ends
    have hover : status.over = true := by
      revert hstatus
      cases status <;> decide
    exact h.last hi hup hover
  | fail i =>
    obtain ⟨_, hi, ⟨_, hup⟩, rfl⟩ := of_task hl
    exact h.last hi hup rfl
  | ready i =>
    obtain ⟨_, hi, ⟨hkind, hup⟩, rfl⟩ := of_task hl
    exact h.ready hi hkind hup
  | publish i =>
    obtain ⟨_, hi, ⟨_, hsent, _⟩, rfl⟩ := of_task hl
    exact h.publish hi hsent fun d hd => hok.publish (h.meets_of hd) hd
  | finish i =>
    obtain ⟨_, hi, ⟨halive, hend⟩, rfl⟩ := of_task hl
    exact h.finish hi hend halive

/-- The invariant holds before the first session. -/
theorem inv_init : ({} : SessionRun).Inv := by
  refine ⟨fun i t hi => ?_, fun i j t u hi => ?_, ⟨none, some none, some none, false, false, false⟩,
    rfl, fun i t hi => ?_, nofun, fun cur hcur => ?_, nofun, fun cur hcur => ?_, nofun⟩
  · cases hi
  · cases hi
  · cases hi
  · obtain rfl := Option.some.inj hcur
    rfl
  · obtain rfl := Option.some.inj hcur
    rfl

/-- The invariant holds in every state reached. -/
theorem inv (hs : sessionRuns.Reach Orderly s) : s.Inv := by
  refine hs.invariant (P := Inv) (fun s h => ?_) fun s l s' _ h hok hl => h.step hok hl
  obtain rfl : s = {} := h
  exact inv_init

/-- Where the invariant holds, the status, the desk and the loops are sound. -/
theorem Inv.sound (h : s.Inv) : s.Sound := by
  obtain ⟨d, hd, hm⟩ := h.meets
  refine ⟨h.one, fun i t hi halive => ?_, fun ⟨hcalls, hquiet⟩ i => ?_, fun ⟨hcalls, hquiet⟩ => ?_⟩
  -- whoever is in charge is recorded or in a command's hands
  · rcases hm.known i t hi halive with hcharge | ⟨htold, -⟩
    · exact (demands_charge hd hcharge).imp_right .inr
    · exact .inr (.inl htold)
  · rw [hcalls] at hd
    obtain rfl := Option.some.inj hd
    have hdesk := hm.desk _ rfl
    cases hrunning : s.running with
    | none =>
      rw [hrunning] at hdesk
      have hnone : s.desk = none := hdesk
      simp [hnone]
    | some r =>
      rw [hrunning] at hdesk
      refine (hdesk i).trans ⟨fun ⟨hir, t, ht, hp⟩ => ?_, fun ⟨hir, t, ht, hkind, halive⟩ => ?_⟩
      · subst hir
        have hok := h.ok i t ht
        obtain ⟨u, hu, huntold⟩ := hm.untold i hrunning
        obtain rfl : t = u := Option.some.inj (ht.symm.trans hu)
        -- its desk was sent, and it was not told to stop: it listens
        have hready := hok.sent huntold (hok.published hp)
        refine ⟨rfl, t, ht, ?_, ?_⟩
        · cases hkind : t.kind with
          | server => rfl
          | client => exact absurd hready (hok.client hkind).2
        · exact SessionTask.alive_of hready nofun
      -- when all is quiet every server has handed its desk over
      · obtain rfl := Option.some.inj hir
        exact ⟨rfl, t, ht, (hquiet t (List.mem_of_getElem? ht) halive).2.2 hkind⟩
  · rw [hcalls] at hd
    obtain rfl := Option.some.inj hd
    have hstatus := hm.status _ rfl
    cases hrunning : s.running with
    | none =>
      rw [hrunning] at hstatus
      have hover : s.status.over = true := hstatus
      simp [hover]
    | some r =>
      rw [hrunning] at hstatus
      obtain ⟨t, ht, -⟩ := hm.untold r hrunning
      refine (hstatus t ht).trans ⟨fun hend => ?_, fun hnone => ?_⟩
      -- the status is over: the task has set its last, so it is not quiet or has ended
      · rintro ⟨i, u, hi, hu, halive⟩
        obtain rfl := Option.some.inj hi
        obtain rfl : t = u := Option.some.inj (ht.symm.trans hu)
        rcases hend with hending | hended
        · exact (hquiet t (List.mem_of_getElem? ht) halive).2.1 hending
        · exact halive hended
      · by_contra hlive
        exact hnone ⟨r, t, rfl, ht, fun hended => hlive (.inr hended)⟩

end

/-- One task at a time, none forgotten, and once nothing is under way the desk and the status
shown are those of what runs, in every orderly run. -/
theorem session_sound (s : SessionRun) (hs : sessionRuns.Reach Orderly s) : s.Sound :=
  (inv hs).sound

/-! ### A start and a stop that others cut into -/

instance (s : SessionRun) (i : Nat) : Decidable (s.Held i) :=
  inferInstanceAs (Decidable (∃ pc ∈ s.calls, _))

instance (t : SessionTask) : Decidable t.Alive := inferInstanceAs (Decidable (_ ≠ _))

instance (s : SessionRun) : (l : SessionEvent) → Decidable (s.Orderly l)
  | .startCmd _ =>
    decidable_of_iff (s.calls = [] ∧ ∀ p ∈ s.tasks.zipIdx, p.1.Alive → s.running = some p.2)
      (and_congr_right fun _ => ⟨fun h i t hi => h (t, i) (List.mem_zipIdx_iff_getElem?.mpr hi),
        fun h p hp => h p.2 p.1 (List.mem_zipIdx_iff_getElem?.mp hp)⟩)
  | .stopCmd => inferInstanceAs (Decidable (s.calls = []))
  | .report i _ => inferInstanceAs (Decidable (_ ∨ s.Held i ∨ _))
  | .publish i => inferInstanceAs (Decidable (s.running = some i ∨ ∃ pc ∈ s.calls, _))
  | .call _ | .refuse _ | .grace _ | .poll | .last _ _ | .fail _ | .ready _ | .finish _ =>
    isTrue trivial

/-- The steps of a start that nothing cuts into. -/
def wholeStart (kind : TaskKind) : List SessionEvent :=
  [.startCmd kind, .call 0, .call 0, .call 0, .call 0, .call 0]

/-- One server that runs and has published its desk. -/
theorem session_sound_server : SessionRun.Sound
    ⟨some 0, some 0, .serverRunning, [⟨.server, .ready, false, false, true, true, true⟩], []⟩ := by
  have hrun : sessionRuns.exec Orderly {} (wholeStart .server ++ [.ready 0, .publish 0])
      = some ⟨some 0, some 0, .serverRunning,
        [⟨.server, .ready, false, false, true, true, true⟩], []⟩ := by
    decide +kernel
  exact session_sound _ (Lts.reach_of_exec rfl hrun)

/-- Two starts at once both find nothing running, and two clients live; a server is told to stop
before it listens, and its desk is handed over after the stop; an aborted client says that it is
connected after the stop has said that nothing runs. -/
theorem commands_cut_in :
    (∃ s, sessionRuns.Reachable s ∧ ¬ ∀ (i j : Nat) (t u : SessionTask), s.tasks[i]? = some t →
        s.tasks[j]? = some u → t.Alive → u.Alive → i = j)
    ∧ (∃ s, sessionRuns.Reachable s ∧ s.Quiet ∧ s.running = none ∧ s.desk = some 0)
    ∧ ∃ s, sessionRuns.Reachable s ∧ s.Quiet ∧ s.running = none ∧ s.status = .connected := by
  refine ⟨?_, ?_, ?_⟩
  -- two starts at once: both spawn a task
  · have hrun : sessionRuns.run {} [.startCmd .client, .startCmd .client, .call 0, .call 1, .call 0,
        .call 1, .call 0, .call 1]
        = some ⟨none, none, .connecting, [{ kind := .client }, { kind := .client }],
          [.spawned 0, .spawned 1]⟩ := by
      decide +kernel
    refine ⟨_, Lts.reachable_of_run rfl hrun, fun h => ?_⟩
    have := h 0 1 _ _ rfl rfl nofun nofun
    cases this
  -- a stop while the desk is published: it is published after the stop
  · have hrun : sessionRuns.run {} (wholeStart .server ++ [.stopCmd, .call 0, .call 0, .call 0,
        .ready 0, .finish 0, .call 0, .call 0, .call 0, .publish 0])
        = some ⟨none, some 0, .stopped, [⟨.server, .ended, true, false, true, true, true⟩], []⟩ := by
      decide +kernel
    refine ⟨_, Lts.reachable_of_run rfl hrun, ⟨rfl, ?_⟩, rfl, rfl⟩
    decide
  -- a stop while the task reports: the report stays
  · have hrun : sessionRuns.run {} (wholeStart .client ++ [.stopCmd, .call 0, .call 0, .call 0,
        .call 0, .report 0 .connected, .finish 0])
        = some ⟨none, none, .connected, [⟨.client, .ended, true, true, false, false, false⟩], []⟩ := by
      decide +kernel
    refine ⟨_, Lts.reachable_of_run rfl hrun, ⟨rfl, ?_⟩, rfl, rfl⟩
    decide

end SessionRun

end GeserDesk
