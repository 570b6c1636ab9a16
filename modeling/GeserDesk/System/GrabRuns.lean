import GeserDesk.Lib.Transition
import GeserDesk.Server.Handover

/-!
# The router and the capture backend

Two parties with a queue each way: `CaptureCmd`s to the backend, `CaptureEvent`s back. The
backend answers a `grab` it could not carry out with `GrabFailed`. Changes from the hub and the
outcome of every send are the environment's choice.

* **`grab_agrees`**: with both queues empty the devices are grabbed exactly when a client has
  the input, in every run in which each `GrabFailed` is handled in time (`AnsweredInTime`).
* **`late_grab_failed_strands_grab`**: `GrabFailed` does not say which `grab` it answers. One
  that is overtaken by an `ungrab` and another `grab` makes the core go local for good while
  the second grab stands.
-/

namespace GeserDesk

structure GrabRun where
  turn : Turn
  backend : Backend := {}
  /-- Commands sent and not carried out yet. -/
  cmds : List CaptureCmd := []
  /-- Events observed and not handled yet. -/
  evs : List CaptureEvent := []

inductive GrabLabel where
  /-- The backend observes the devices. -/
  | observe (ev : CaptureEvent)
  /-- The backend carries out the next command. -/
  | obey (grabOk : Bool)
  /-- The router handles the next capture event. -/
  | handle (nowMs : Nat)
  /-- The router handles a change from the hub. -/
  | hub (ev : HubEvent)
  /-- The router carries out the next action of the event it is handling. -/
  | act (sendOk : Bool)

namespace GrabRun

def step (s : GrabRun) : GrabLabel → Option GrabRun
  | .observe ev => if ev = .grabFailed then none else some { s with evs := s.evs ++ [ev] }
  | .obey grabOk =>
    match s.cmds with
    | [] => none
    | cmd :: cmds =>
      let (backend, out) := s.backend.onCmd grabOk cmd
      some { s with backend := backend, cmds := cmds, evs := s.evs ++ out }
  | .handle nowMs =>
    match s.evs with
    | [] => none
    | ev :: evs =>
      match s.turn.take fun c => c.handle ev nowMs with
      | some turn => some { s with turn := turn, evs := evs }
      | none => none
  | .hub ev =>
    match s.turn.take fun c => c.onHubEvent ev with
    | some turn => some { s with turn := turn }
    | none => none
  | .act sendOk =>
    match s.turn.act fun _ => sendOk with
    | none => none
    | some (turn, some (.command cmd)) => some { s with turn := turn, cmds := s.cmds ++ [cmd] }
    | some (turn, some (.message _ _)) | some (turn, none) => some { s with turn := turn }

end GrabRun

/-- The router and the capture backend, as a transition system. -/
def grabRuns : Lts GrabRun GrabLabel where
  init s := ∃ core : Core, core.IsNew ∧ s = { turn := ⟨core, []⟩ }
  step := GrabRun.step

/-- The command in an action. -/
def Action.command? : Action → Option CaptureCmd
  | .capture cmd => some cmd
  | .send _ _ => none

namespace GrabRun

/-- Everything on its way to the backend: what is queued, and then what the router has decided
on and not sent yet. -/
def commands (s : GrabRun) : List CaptureCmd := s.cmds ++ s.turn.pending.filterMap Action.command?

/-- With both queues empty, the devices are grabbed exactly when a client has the input. -/
def Agrees (s : GrabRun) : Prop :=
  s.commands = [] → s.evs = [] → (s.backend.grabbed = true ↔ s.turn.core.activeRemote.isSome = true)

end GrabRun

/-- A `GrabFailed` handled while a client has the input answers the grab that was made for it:
the devices have not been grabbed since, and no other grab is on its way. -/
def AnsweredInTime (s : GrabRun) : GrabLabel → Prop
  | .handle _ => s.evs.head? = some .grabFailed → s.turn.core.activeRemote.isSome = true →
      s.backend.grabbed = false ∧ CaptureCmd.grab ∉ s.cmds
  | _ => True

instance (s : GrabRun) (l : GrabLabel) : Decidable (AnsweredInTime s l) := by
  unfold AnsweredInTime
  split <;> infer_instance

/-! ## Where the queued commands lead -/

/-- Whether the devices end up grabbed, if every grab succeeds. -/
def heading (grabbed : Bool) (cmds : List CaptureCmd) : Bool :=
  cmds.foldl (fun _ cmd => decide (cmd = .grab)) grabbed

/-- The last command says where the backend is heading. -/
theorem heading_snoc (grabbed : Bool) (cmds : List CaptureCmd) (cmd : CaptureCmd) :
    heading grabbed (cmds ++ [cmd]) = decide (cmd = .grab) := by
  rw [heading, List.foldl_append]; rfl

/-- Only the last command counts, so without one that grabs nothing gets grabbed. -/
theorem heading_of_not_mem {cmds : List CaptureCmd} (h : CaptureCmd.grab ∉ cmds) :
    heading false cmds = false := by
  rcases List.eq_nil_or_concat cmds with rfl | ⟨init, last, rfl⟩
  · rfl
  · rw [List.concat_eq_append] at h ⊢
    rw [heading_snoc]
    refine decide_eq_false fun hlast => h ?_
    rw [hlast]
    exact List.mem_append_right _ (List.mem_singleton_self _)

/-- A backend that has carried out a command heads where it did before, unless that was the
last command and a grab that failed. -/
theorem heading_onCmd (b : Backend) (grabOk : Bool) (cmd : CaptureCmd) (cmds : List CaptureCmd) :
    heading (b.onCmd grabOk cmd).1.grabbed cmds = heading b.grabbed (cmd :: cmds)
      ∨ (cmds = [] ∧ cmd = .grab ∧ CaptureEvent.grabFailed ∈ (b.onCmd grabOk cmd).2) := by
  cases cmd with
  | ungrab warp => exact .inl rfl
  | grab =>
    cases hg : b.grabbed with
    | true => exact .inl (by simp [Backend.onCmd, hg, heading])
    | false =>
      cases grabOk with
      | true => exact .inl (by simp [Backend.onCmd, hg, heading])
      | false =>
        cases cmds with
        | nil => exact .inr ⟨rfl, rfl, by simp [Backend.onCmd, hg]⟩
        | cons next rest => exact .inl (by simp [Backend.onCmd, hg, heading])

/-! ## The invariant

The router's state, the commands on their way and the backend's grab fit together, with the
answers still to come. -/

/-- The devices are headed where the core says the input is, or the answer that says they are
not is on its way and nothing else is. -/
def GrabInv (s : GrabRun) : Prop :=
  heading s.backend.grabbed s.commands = s.turn.core.activeRemote.isSome
    ∨ (s.turn.core.activeRemote.isSome = true ∧ s.commands = []
        ∧ CaptureEvent.grabFailed ∈ s.evs)

/-- The commands a handover gives are the difference it makes. -/
theorem Handover.commands {c c' : Core} {acts : List Action} (h : Handover c c' acts) :
    (c'.activeRemote.isSome = c.activeRemote.isSome ∧ acts.filterMap Action.command? = [])
      ∨ (∃ cmd, acts.filterMap Action.command? = [cmd]
          ∧ decide (cmd = .grab) = c'.activeRemote.isSome) := by
  have hinput : ∀ {screen : String} {input : List Action}, (∀ a ∈ input, a.IsInputFor screen) →
      input.filterMap Action.command? = [] := by
    intro screen input hall
    rw [List.filterMap_eq_nil_iff]
    intro a ha
    obtain ⟨msg, rfl, -⟩ := hall a ha
    rfl
  cases h with
  | keep hactive hseq hacts =>
    refine .inl ⟨by rw [hactive], List.filterMap_eq_nil_iff.mpr fun a ha => ?_⟩
    obtain ⟨screen, -, msg, rfl, -⟩ := hacts a ha
    rfl
  | enter target at_ hactive hactive' hseq => exact .inr ⟨.grab, rfl, by rw [hactive']; rfl⟩
  | hop hactive hactive' hne hseq hedge =>
    obtain ⟨msg, rfl, -⟩ := hedge
    exact .inl ⟨by rw [hactive, hactive']; rfl, rfl⟩
  | @home screen at_ input hactive hactive' hseq hall =>
    refine .inr ⟨.ungrab at_, ?_, by rw [hactive']; rfl⟩
    rw [List.filterMap_append, hinput hall]
    rfl

/-- Taking an event whose reaction is a handover keeps the invariant. -/
theorem GrabInv.handover {s s' : GrabRun} (h : GrabInv s) (hpending : s.turn.pending = [])
    (hhand : Handover s.turn.core s'.turn.core s'.turn.pending)
    (hbackend : s'.backend = s.backend) (hcmds : s'.cmds = s.cmds)
    (hevs : CaptureEvent.grabFailed ∈ s.evs → CaptureEvent.grabFailed ∈ s'.evs) : GrabInv s' := by
  have hbefore : s.commands = s.cmds := by rw [GrabRun.commands, hpending]; exact List.append_nil _
  rcases hhand.commands with ⟨hsame, hnone⟩ | ⟨cmd, hone, hcmd⟩
  · have hafter : s'.commands = s.commands := by
      rw [GrabRun.commands, hnone, hcmds, List.append_nil, hbefore]
    unfold GrabInv
    rw [hafter, hbackend, hsame]
    exact h.imp id fun ⟨hr, hq, hmem⟩ => ⟨hr, hq, hevs hmem⟩
  · left
    rw [GrabRun.commands, hone, heading_snoc, hcmd]

/-- What the backend sees is one event more to come. -/
theorem GrabInv.observe_step {s s' : GrabRun} {ev : CaptureEvent} (h : GrabInv s)
    (hs : s.step (.observe ev) = some s') : GrabInv s' := by
  unfold GrabRun.step at hs
  dsimp only at hs
  split at hs
  · cases hs
  · obtain rfl := Option.some.inj hs
    exact h.imp id fun ⟨hr, hq, hmem⟩ => ⟨hr, hq, List.mem_append_left _ hmem⟩

/-- The backend obeys one command, and answers a grab that fails. -/
theorem GrabInv.obey_step {s s' : GrabRun} {grabOk : Bool} (h : GrabInv s)
    (hs : s.step (.obey grabOk) = some s') : GrabInv s' := by
  unfold GrabRun.step at hs
  dsimp only at hs
  split at hs
  · cases hs
  · next cmd cmds hcmds =>
    obtain rfl := Option.some.inj hs
    have hq : s.commands = cmd :: (cmds ++ s.turn.pending.filterMap Action.command?) := by
      rw [GrabRun.commands, hcmds]; rfl
    rcases h with h | ⟨-, hnone, -⟩
    · rw [hq] at h
      rcases heading_onCmd s.backend grabOk cmd _ with hsame | ⟨hlast, rfl, hfailed⟩
      · exact .inl (hsame.trans h)
      · -- the last command was a grab, so a client has the input
        have hnone : cmds ++ s.turn.pending.filterMap Action.command? = [] := hlast
        rw [hnone] at h
        exact .inr ⟨h.symm.trans rfl, hlast, List.mem_append_right _ hfailed⟩
    · rw [hnone] at hq
      cases hq

/-- The router handles an event of the backend; an answer comes while the grab it answers is still
the last word. -/
theorem GrabInv.handle_step {s s' : GrabRun} {nowMs : Nat} (h : GrabInv s)
    (hok : AnsweredInTime s (.handle nowMs)) (hs : s.step (.handle nowMs) = some s') :
    GrabInv s' := by
  unfold GrabRun.step at hs
  dsimp only at hs
  split at hs
  · cases hs
  · next ev evs hevs =>
    split at hs
    · next turn htake =>
      obtain rfl := Option.some.inj hs
      obtain ⟨hpending, rfl⟩ := Turn.take_eq htake
      by_cases hev : ev = .grabFailed
      · subst hev
        show GrabInv ⟨⟨s.turn.core.onGrabFailed.1, s.turn.core.onGrabFailed.2⟩, s.backend, s.cmds,
          evs⟩
        cases hr : s.turn.core.activeRemote with
        | none =>
          -- an answer nobody waits for
          rw [Core.onGrabFailed_local hr]
          rcases h with h | ⟨hremote, -, -⟩
          · exact .inl (by rw [GrabRun.commands, hpending] at h; exact h)
          · rw [hr] at hremote
            cases hremote
        | some screen =>
          obtain ⟨hlocal, -, hacts⟩ := Core.onGrabFailed_remote hr
          obtain ⟨hfree, hnograb⟩ := hok (by rw [hevs]; rfl) (by rw [hr]; rfl)
          left
          show heading s.backend.grabbed
            (s.cmds ++ s.turn.core.onGrabFailed.2.filterMap Action.command?) = _
          rw [hacts, hfree, hlocal]
          exact (congrArg (heading false) (List.append_nil _)).trans (heading_of_not_mem hnograb)
      · refine h.handover hpending (Core.handle_handover _ hev nowMs) rfl rfl fun hmem => ?_
        rw [hevs] at hmem
        exact (List.mem_cons.mp hmem).resolve_left fun e => hev e.symm
    · cases hs

/-- The router handles an event of the hub: if the active client is gone, its last command is a
release. -/
theorem GrabInv.hub_step {s s' : GrabRun} {ev : HubEvent} (h : GrabInv s)
    (hs : s.step (.hub ev) = some s') : GrabInv s' := by
  unfold GrabRun.step at hs
  dsimp only at hs
  split at hs
  · next turn htake =>
    obtain rfl := Option.some.inj hs
    obtain ⟨hpending, rfl⟩ := Turn.take_eq htake
    rcases s.turn.core.onHubEvent_cases ev with ⟨name, rfl, hactive⟩ | ⟨hsame, hseq, hacts⟩
    · obtain ⟨hlocal, -, warp, hacts⟩ := Core.clientDisconnected_active hactive
      left
      show heading s.backend.grabbed
        (s.cmds ++ (s.turn.core.clientDisconnected name).2.filterMap Action.command?)
        = (s.turn.core.clientDisconnected name).1.activeRemote.isSome
      rw [hacts, hlocal]
      exact heading_snoc _ _ _
    · refine h.handover hpending ?_ rfl rfl id
      exact .keep hsame hseq (by rw [hacts]; exact nofun)
  · cases hs

/-- A client is found gone while the router sends: the same, if it was the active one. -/
theorem GrabInv.vanished {s : GrabRun} {to_ : String} {msg : ServerMsg} {rest : List Action}
    (h : GrabInv s) (hp : s.turn.pending = .send to_ msg :: rest) :
    GrabInv { s with
      turn := ⟨(s.turn.core.clientDisconnected to_).1,
        rest ++ (s.turn.core.clientDisconnected to_).2⟩ } := by
  unfold GrabInv at h
  have hq : s.commands = s.cmds ++ rest.filterMap Action.command? := by
    rw [GrabRun.commands, hp]; rfl
  rw [hq] at h
  by_cases hactive : s.turn.core.activeRemote = some to_
  · obtain ⟨hlocal, -, warp, hacts⟩ := Core.clientDisconnected_active hactive
    left
    show heading s.backend.grabbed
      (s.cmds ++ (rest ++ (s.turn.core.clientDisconnected to_).2).filterMap Action.command?)
      = (s.turn.core.clientDisconnected to_).1.activeRemote.isSome
    rw [hacts, hlocal, List.filterMap_append, ← List.append_assoc]
    exact heading_snoc _ _ _
  · obtain ⟨hsame, -, hacts⟩ := Core.clientDisconnected_other hactive
    have hrest : rest ++ (s.turn.core.clientDisconnected to_).2 = rest := by
      rw [hacts, List.append_nil]
    unfold GrabInv GrabRun.commands
    dsimp only
    rw [hrest, hsame]
    exact h

/-- The router acts: a command goes to the backend, a message does not. -/
theorem GrabInv.act_step {s s' : GrabRun} {sendOk : Bool} (h : GrabInv s)
    (hs : s.step (.act sendOk) = some s') : GrabInv s' := by
  unfold GrabRun.step at hs
  dsimp only at hs
  cases hact : s.turn.act fun _ => sendOk with
  | none => rw [hact] at hs; cases hs
  | some outcome =>
    obtain ⟨turn, effect⟩ := outcome
    rw [hact] at hs
    cases Turn.acts_of_act hact with
    | @command cmd rest hp =>
      obtain rfl := Option.some.inj hs
      have hq : s.commands = (s.cmds ++ [cmd]) ++ rest.filterMap Action.command? := by
        rw [GrabRun.commands, hp, List.append_assoc]; rfl
      unfold GrabInv at h
      rw [hq] at h
      exact h
    | @sent to_ msg rest hp hok =>
      obtain rfl := Option.some.inj hs
      have hq : s.commands = s.cmds ++ rest.filterMap Action.command? := by
        rw [GrabRun.commands, hp]; rfl
      unfold GrabInv at h
      rw [hq] at h
      exact h
    | @vanished to_ msg rest hp hok =>
      obtain rfl := Option.some.inj hs
      exact h.vanished hp

/-- **One step keeps the invariant.** -/
theorem grabInv_step {s s' : GrabRun} {l : GrabLabel} (h : GrabInv s) (hok : AnsweredInTime s l)
    (hs : s.step l = some s') : GrabInv s' := by
  cases l with
  | observe ev => exact h.observe_step hs
  | obey grabOk => exact h.obey_step hs
  | handle nowMs => exact h.handle_step hok hs
  | hub ev => exact h.hub_step hs
  | act sendOk => exact h.act_step hs

/-- The invariant holds in every state of a run whose answers come in time. -/
theorem grabInv_reach {s : GrabRun} (hs : grabRuns.Reach AnsweredInTime s) : GrabInv s := by
  refine Lts.Reach.invariant (P := GrabInv) ?_ ?_ hs
  · rintro _ ⟨core, hnew, rfl⟩
    exact .inl (by rw [hnew.start.1]; rfl)
  · intro _ _ _ _ ih hok hl
    exact grabInv_step ih hok hl

/-- **With both queues empty the devices are grabbed exactly when a client has the input**, in
every run in which each failed grab is answered in time. -/
theorem grab_agrees {s : GrabRun} (hs : grabRuns.Reach AnsweredInTime s) : s.Agrees := by
  intro hcmds hevs
  rcases grabInv_reach hs with h | ⟨-, -, hmem⟩
  · rw [hcmds] at h
    rw [← h]; rfl
  · rw [hevs] at hmem
    cases hmem

/-- A grab fails and is given up; the next one succeeds. -/
theorem grab_agrees_retry :
    ∃ s, grabRuns.Reach AnsweredInTime s ∧ s.backend.grabbed = true ∧ s.Agrees := by
  let labels : List GrabLabel :=
    [.hub (.connected "b" [⟨0, 0, 1280, 720⟩]), .observe .hotkey, .handle 0, .act true, .act true,
      .obey false, .handle 1, .act true,
      .observe .hotkey, .handle 2, .act true, .act true, .obey true]
  have hend : (grabRuns.exec AnsweredInTime { turn := ⟨Core.twoScreens, []⟩ } labels).map
      (fun s => s.backend.grabbed) = some true := by decide +kernel
  obtain ⟨s, hs, hgrabbed⟩ := Option.map_eq_some_iff.mp hend
  have hreach : grabRuns.Reach AnsweredInTime s :=
    Lts.reach_of_exec ⟨_, Core.twoScreens_isNew, rfl⟩ hs
  exact ⟨s, hreach, hgrabbed, grab_agrees hreach⟩

/-- Three presses of the hotkey queue `grab`, `ungrab`, `grab`. The first grab fails and the
second succeeds; the core takes the `GrabFailed` for the second one's and goes local, which
sends no `ungrab`. -/
theorem late_grab_failed_strands_grab : ¬ ∀ s, grabRuns.Reachable s → s.Agrees := by
  let labels : List GrabLabel :=
    [.hub (.connected "b" [⟨0, 0, 1280, 720⟩]),
      .observe .hotkey, .observe .hotkey, .observe .hotkey,
      .handle 0, .act true, .act true, .handle 1, .act true, .act true,
      .handle 2, .act true, .act true,
      .obey false, .obey true, .obey true, .handle 3, .act true]
  intro hall
  have hend : (grabRuns.run { turn := ⟨Core.twoScreens, []⟩ } labels).map
      (fun s => (s.commands, s.evs, s.backend.grabbed, s.turn.core.activeRemote))
      = some ([], [], true, none) := by decide +kernel
  obtain ⟨s, hs, hstate⟩ := Option.map_eq_some_iff.mp hend
  simp only [Prod.mk.injEq] at hstate
  obtain ⟨hcmds, hevs, hgrabbed, hlocal⟩ := hstate
  have hagrees := hall s (Lts.reachable_of_run ⟨_, Core.twoScreens_isNew, rfl⟩ hs) hcmds hevs
  rw [hlocal] at hagrees
  exact Bool.false_ne_true (hagrees.mp hgrabbed)

end GeserDesk
