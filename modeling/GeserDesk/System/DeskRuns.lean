import GeserDesk.Server.DeskPart
import GeserDesk.System.InputRuns

/-!
# Runs of the desk — the hub, the router and the layout editor's state

The runs of `InputRuns` with the layout editor beside them: a front end asks for snapshots,
applies layouts and approves machines the config did not list, and this machine's own monitors
change. Each of these is one step, as one call after the other makes it; the calls on the hub stay
apart by lock section.

`DeskInv` is what ties the three together: the events the router has not taken yet turn what it
has of the desk into what the editor has, and who it takes for connected is what the events it took
say, but for a client it found gone before it was told.
-/

namespace GeserDesk

structure DeskRun where
  io : InputRun
  desk : DeskState

inductive DeskLabel where
  /-- Anything the hub, its sessions, the capture backend and the router do. -/
  | input (l : InputLabel)
  | snapshot
  | applyLayout (requested : Dict String Point) (resized : Dict String (Option Size))
  /-- A client that was waiting is approved. -/
  | approve (name : String)
  /-- The watcher finds this machine's monitors changed. -/
  | localMonitors (monitors : List Rect)

/-- Put an event about no one client on the router's channel. -/
def InputRun.post (s : InputRun) (ev : HubEvent) : InputRun :=
  { s with base := { s.base with
      hub := s.base.hub.emit ev
      posted := s.base.posted ++ [(ev, none)] } }

namespace DeskRun

def step (s : DeskRun) : DeskLabel → Option DeskRun
  | .input (.hub (.post _)) => none -- the calls below post these
  | .input l => (s.io.step l).map fun io => { s with io := io }
  | .snapshot => some { s with desk := (s.desk.screens s.io.base.hub).2 }
  | .applyLayout requested resized =>
    let desk := (s.desk.screens s.io.base.hub).2
    match s.desk.validate s.io.base.hub requested resized with
    | .error _ => some { s with desk := desk }
    | .ok (next, sizes) => some
        { io := (s.io.post (.sizes sizes)).post (.positions next)
          desk := { desk with positions := next, sizes := sizes } }
  | .approve name =>
    if s.desk.layout.hasScreen name then some s
    else
      let (hub, added) := s.io.base.hub.addScreen name
      some
        { io := { s.io with base := { s.io.base with
            hub := hub
            posted := s.io.base.posted ++ if added then [(.screenAdded name, none)] else [] } }
          desk := { s.desk with layout := (s.desk.layout.addScreen name).1 } }
  | .localMonitors monitors =>
    if monitors.isEmpty ∨ monitors = s.desk.localMonitors then none
    else some
      { io := s.io.post (.localMonitors monitors)
        desk := { s.desk with localMonitors := monitors } }

/-- The router has taken every event sent. -/
def CaughtUp (s : DeskRun) : Prop := s.io.seen = s.io.base.hub.events.length

instance (s : DeskRun) : Decidable s.CaughtUp := inferInstanceAs (Decidable (_ = _))

/-- The events the router has still to take. -/
def toTake (s : DeskRun) : List HubEvent := s.io.base.hub.events.drop s.io.seen

/-- Who is connected, by the events the router took. -/
def told (s : DeskRun) : Dict String (List Rect) :=
  routerView (s.io.base.hub.events.take s.io.seen)

end DeskRun

/-- The server's desk as a transition system. The router and the editor start from one config. -/
def deskRuns : Lts DeskRun DeskLabel where
  init s := ∃ (core : Core) (disabled : Finset String) (desk : DeskState), core.IsNew
    ∧ desk.desk = core.desk ∧ desk.known = ∅
    ∧ s = ⟨{ base := HubRun.start [] disabled, turn := ⟨core, []⟩ }, desk⟩
  step := DeskRun.step

/-- No event of the hub is sent into a window of another call. -/
def Steady (s : DeskRun) : DeskLabel → Prop
  | .input (.hub l) => Undisturbed s.io.base l
  | _ => True

instance (s : DeskRun) (l : DeskLabel) : Decidable (Steady s l) := by
  unfold Steady
  split
  all_goals infer_instance

/-! ## Changes of the hub its sessions do not see

Messages queued and events posted leave the registry as it is. -/

/-- The same sessions, monitors and screens turned off, and the same picture of the clients. -/
structure HubRun.Alike (b b' : HubRun) : Prop where
  sessions : b'.sessions = b.sessions
  nextSession : b'.nextSession = b.nextSession
  admin : b'.admin = b.admin
  disabled : b'.hub.disabled = b.hub.disabled
  monitors : ∀ n, (b'.hub.clients.get? n).map (·.monitors) = (b.hub.clients.get? n).map (·.monitors)
  view : ∀ n, b'.view n = b.view n

/-- Hubs that are alike are well-formed together. -/
theorem HubWf.alike {b b' : HubRun} (h : HubWf b) (ha : b.Alike b') : HubWf b' := by
  have hsome : ∀ n, (b'.hub.clients.get? n).isSome = (b.hub.clients.get? n).isSome := by
    intro n
    have := congrArg Option.isSome (ha.monitors n)
    simpa only [Option.isSome_map] using this
  constructor
  · intro sid pc name hpc hholds
    rw [hsome]
    exact h.entry sid pc name (ha.sessions ▸ hpc) hholds
  · intro sid pc name ms hpc howes
    rw [ha.monitors]
    exact h.owed sid pc name ms (ha.sessions ▸ hpc) howes
  · intro name hn
    rw [ha.sessions]
    exact h.session name (hsome name ▸ hn)
  · rw [ha.sessions]
    exact h.unique
  · rw [ha.sessions, ha.nextSession]
    exact h.fresh

/-- Hubs that are alike show a name in the same way. -/
theorem NameView.alike {b b' : HubRun} {n : String} (h : NameView b n) (ha : b.Alike b') :
    NameView b' n := by
  have hnone : b'.hub.clients.get? n = none ↔ b.hub.clients.get? n = none := by
    rw [← Option.map_eq_none_iff, ha.monitors, Option.map_eq_none_iff]
  have hswitching : b'.Switching n ↔ b.Switching n := by
    unfold HubRun.Switching
    rw [ha.admin]
  have hleaving : b'.Leaving n ↔ b.Leaving n := by
    unfold HubRun.Leaving
    rw [ha.sessions]
  have hannouncing : b'.Announcing n ↔ b.Announcing n := by
    unfold HubRun.Announcing
    rw [ha.sessions]
  have hlive : b'.Live n ↔ b.Live n := by
    unfold HubRun.Live
    rw [ha.sessions]
  constructor
  · rw [ha.disabled, hswitching, ha.view, hleaving]; exact h.off
  · rw [hnone, ha.view, hleaving]; exact h.gone
  · rw [hlive, ha.disabled, hswitching, ha.view, ha.monitors, hleaving]; exact h.on
  · rw [hannouncing, ha.disabled, hswitching]; exact h.announcing
  · intro b; rw [ha.admin, ha.disabled]; exact h.switching b

/-- A message queued touches neither clients' names nor events. -/
theorem alike_queue (s : InputRun) (name : String) (msg : ServerMsg) :
    s.base.Alike (s.queue name msg) ∧ (s.queue name msg).hub.events = s.base.hub.events
      ∧ (s.queue name msg).hub.added = s.base.hub.added := by
  have hframe : (s.base.hub.send name msg).1.events = s.base.hub.events
      ∧ (s.base.hub.send name msg).1.added = s.base.hub.added := by
    unfold Hub.send
    split <;> exact ⟨rfl, rfl⟩
  refine ⟨⟨rfl, rfl, rfl, (Hub.send_frame _ _ _).1, fun n => ?_, fun n => ?_⟩, hframe⟩
  · show ((s.base.hub.send name msg).1.clients.get? n).map _ = _
    rw [Hub.send_get?]
    split
    · next hn => rw [hn, Option.map_map]; rfl
    · rfl
  · show (routerView (s.base.hub.send name msg).1.events).get? n = _
    rw [hframe.1]
    rfl

/-- An event of the desk as a whole touches no name. -/
theorem alike_post (s : InputRun) (ev : HubEvent) (hev : ev.isGeneral = true) :
    s.base.Alike (s.post ev).base := by
  refine ⟨rfl, rfl, rfl, rfl, fun _ => rfl, fun n => ?_⟩
  show (routerView (s.base.hub.events ++ [ev])).get? n = _
  rw [view_general _ hev]
  rfl

/-! ## What a step of the hub sends

The hub sends changes of its clients and nothing about the desk, and a session that has left has
said so. -/

/-- A step of the hub sends the router nothing but changes of its clients, and a session that
has left has said so. -/
theorem HubStep.sends {b b' : HubRun} {l : HubLabel} (hwf : HubWf b) (h : HubStep b l b')
    (hl : ∀ ev, l ≠ .post ev) : ∃ new, b'.hub.events = b.hub.events ++ new
      ∧ (∀ d : DeskPart, new.foldl DeskPart.onEvent d = d)
      ∧ (∀ n, b.Leaving n → b'.Leaving n ∨ HubEvent.disconnected n ∈ new)
      ∧ b'.hub.added = b.hub.added := by
  have hput : ∀ {sid : Nat} {old pc : SessionPc} {n : String},
      b.sessions.get? sid = some old → ¬ old.IsLeaving n → b.Leaving n →
      (b.sessions.put sid pc).Any (SessionPc.IsLeaving n) := by
    intro sid old pc n hold hnot hleave
    exact (Dict.any_put_of_not hold hnot).mpr (.inr hleave)
  cases h with
  | registerInsert hfree =>
    refine ⟨[], (List.append_nil _).symm, fun _ => rfl, fun n hn => .inl ?_, rfl⟩
    exact (Dict.any_put_fresh hwf.fresh_next).mpr (.inr hn)
  | checkOff hpc _ => exact ⟨[], (List.append_nil _).symm, fun _ => rfl,
      fun n hn => .inl (hput hpc nofun hn), rfl⟩
  | checkOn hpc _ => exact ⟨[], (List.append_nil _).symm, fun _ => rfl,
      fun n hn => .inl (hput hpc nofun hn), rfl⟩
  | announce hpc => exact ⟨_, rfl, fun _ => rfl, fun n hn => .inl (hput hpc nofun hn), rfl⟩
  | monitorsSame => exact ⟨[], (List.append_nil _).symm, fun _ => rfl, fun n hn => .inl hn, rfl⟩
  | monitorsNew hpc _ => exact ⟨[], (List.append_nil _).symm, fun _ => rfl,
      fun n hn => .inl (hput hpc nofun hn), rfl⟩
  | remove hpc => exact ⟨[], (List.append_nil _).symm, fun _ => rfl,
      fun n hn => .inl (hput hpc nofun hn), rfl⟩
  | @sayGone sid name hpc =>
    refine ⟨_, rfl, fun _ => rfl, fun n hn => ?_, rfl⟩
    by_cases hname : n = name
    · exact .inr (hname ▸ List.mem_singleton.mpr rfl)
    · -- another one is still leaving
      have hnot : ¬ (SessionPc.leaving name).IsLeaving n := by
        intro h
        cases h
        exact hname rfl
      exact .inl ((Dict.any_drop_of_not hpc hnot).mpr hn)
  | flipSame => exact ⟨[], (List.append_nil _).symm, fun _ => rfl, fun n hn => .inl hn, rfl⟩
  | flipOff _ _ => exact ⟨[], (List.append_nil _).symm, fun _ => rfl, fun n hn => .inl hn, rfl⟩
  | flipOn _ _ => exact ⟨[], (List.append_nil _).symm, fun _ => rfl, fun n hn => .inl hn, rfl⟩
  | tellNobody _ _ => exact ⟨[], (List.append_nil _).symm, fun _ => rfl, fun n hn => .inl hn, rfl⟩
  | tellOff _ _ => exact ⟨_, rfl, fun _ => rfl, fun n hn => .inl hn, rfl⟩
  | tellOn _ _ => exact ⟨_, rfl, fun _ => rfl, fun n hn => .inl hn, rfl⟩
  | post => exact absurd rfl (hl _)

/-- A client that events take out of the picture is said to have gone by one of them. -/
theorem disconnected_mem {events : List HubEvent} {view : Dict String (List Rect)} {n : String}
    (hbefore : view.get? n ≠ none) (hafter : (events.foldl viewEvent view).get? n = none) :
    HubEvent.disconnected n ∈ events := by
  induction events generalizing view with
  | nil => exact absurd hafter hbefore
  | cons ev events ih =>
    -- the first event that takes it out is the one that says so
    by_cases hev : (viewEvent view ev).get? n = none
    · have hgone : ev = .disconnected n := by
        cases ev with
        | disconnected name =>
          by_cases hn : n = name
          · rw [hn]
          · rw [viewEvent, Dict.get?_drop, if_neg hn] at hev
            exact absurd hev hbefore
        | connected name ms =>
          rw [viewEvent, Dict.get?_put] at hev
          split at hev
          · cases hev
          · exact absurd hev hbefore
        | _ => exact absurd hev hbefore
      exact hgone ▸ List.mem_cons_self
    · exact List.mem_cons_of_mem _ (ih hev hafter)

/-! ## The invariant

The desk the router has, once it has taken what was sent, is the one published last. -/

/-- The router has `n` as the events it took say, or has found it gone and will be told. -/
def DeskRun.Follows (s : DeskRun) (n : String) : Prop :=
  s.io.turn.core.connected.get? n = s.told.get? n
    ∨ s.io.turn.core.connected.get? n = none
      ∧ (s.io.base.Leaving n ∨ HubEvent.disconnected n ∈ s.toTake)

structure DeskInv (s : DeskRun) : Prop where
  wf : HubWf s.io.base
  view : ∀ n, NameView s.io.base n
  seen : s.io.seen ≤ s.io.base.hub.events.length
  /-- What the router has of the desk becomes what the editor has. -/
  desk : s.toTake.foldl DeskPart.onEvent s.io.turn.core.desk = s.desk.desk
  placed : s.io.turn.core.Placed
  follows : ∀ n, s.Follows n
  added : ∀ n ∈ s.io.base.hub.added, s.desk.layout.hasScreen n = true

/-- At the start the router and the desk are one. -/
theorem DeskInv.start {core : Core} {disabled : Finset String} {desk : DeskState}
    (hnew : core.IsNew) (hdesk : desk.desk = core.desk) :
    DeskInv ⟨{ base := HubRun.start [] disabled, turn := ⟨core, []⟩ }, desk⟩ where
  wf := hubWf_start _ _
  view := nameView_start _ _
  seen := Nat.le_refl 0
  desk := hdesk.symm
  placed := hnew.placed.1
  follows n := .inl (by rw [show _ = core.connected from rfl, hnew.placed.2]; rfl)
  added n hn := absurd hn List.not_mem_nil

/-- The hub sends events `new`, its sessions move, and the router stands still. -/
theorem DeskInv.sent {s s' : DeskRun} (h : DeskInv s) (new : List HubEvent)
    (hwf : HubWf s'.io.base) (hview : ∀ n, NameView s'.io.base n)
    (hevents : s'.io.base.hub.events = s.io.base.hub.events ++ new)
    (hseen : s'.io.seen = s.io.seen) (hturn : s'.io.turn.core = s.io.turn.core)
    (hdesk : new.foldl DeskPart.onEvent s.desk.desk = s'.desk.desk)
    (hleaving : ∀ n, s.io.base.Leaving n → s'.io.base.Leaving n ∨ HubEvent.disconnected n ∈ new)
    (hadded : ∀ n ∈ s'.io.base.hub.added, s'.desk.layout.hasScreen n = true) : DeskInv s' := by
  have htoTake : s'.toTake = s.toTake ++ new := by
    rw [DeskRun.toTake, hevents, hseen, List.drop_append_of_le_length h.seen]
    rfl
  have htold : s'.told = s.told := by
    rw [DeskRun.told, hevents, hseen, List.take_append_of_le_length h.seen]
    rfl
  refine ⟨hwf, hview, ?_, ?_, hturn ▸ h.placed, fun n => ?_, hadded⟩
  · rw [hevents, hseen, List.length_append]
    have := h.seen
    omega
  · rw [htoTake, List.foldl_append, hturn, h.desk, hdesk]
  · unfold DeskRun.Follows
    rw [hturn, htold, htoTake]
    rcases h.follows n with heq | ⟨hnone, hgone⟩
    · exact .inl heq
    · refine .inr ⟨hnone, ?_⟩
      rcases hgone with hleave | hmem
      · exact (hleaving n hleave).imp_right (List.mem_append_right _)
      · exact .inr (List.mem_append_left _ hmem)

/-- The router moves, and nothing else. -/
theorem DeskInv.moved {s s' : DeskRun} (h : DeskInv s) (hbase : s'.io.base = s.io.base)
    (hdesk' : s'.desk = s.desk) (hseen : s'.io.seen ≤ s.io.base.hub.events.length)
    (hdesk : s'.toTake.foldl DeskPart.onEvent s'.io.turn.core.desk = s.desk.desk)
    (hplaced : s'.io.turn.core.Placed) (hfollows : ∀ n, s'.Follows n) : DeskInv s' :=
  ⟨hbase ▸ h.wf, hbase ▸ h.view, hbase ▸ hseen, hdesk' ▸ hdesk, hplaced, hfollows, by
    rw [hbase, hdesk']; exact h.added⟩

/-- The router's core changes nothing of its map. -/
theorem DeskInv.steady {s s' : DeskRun} (h : DeskInv s) (hbase : s'.io.base = s.io.base)
    (hdesk : s'.desk = s.desk) (hseen : s'.io.seen = s.io.seen)
    (hmap : Core.SameMap s.io.turn.core s'.io.turn.core) : DeskInv s' := by
  have htoTake : s'.toTake = s.toTake := by rw [DeskRun.toTake, hbase, hseen]; rfl
  refine h.moved hbase hdesk (hseen ▸ h.seen) ?_ (hmap.placed h.placed) fun n => ?_
  · rw [htoTake, hmap.desk]
    exact h.desk
  · unfold DeskRun.Follows
    rw [hmap.connected, htoTake, hbase, DeskRun.told, hbase, hseen]
    exact h.follows n

/-- The router takes the next event. -/
theorem DeskInv.took {s s' : DeskRun} (h : DeskInv s) {ev : HubEvent}
    (hev : s.io.base.hub.events[s.io.seen]? = some ev) (hbase : s'.io.base = s.io.base)
    (hdesk : s'.desk = s.desk) (hseen : s'.io.seen = s.io.seen + 1)
    (hcore : s'.io.turn.core = (s.io.turn.core.onHubEvent ev).1) : DeskInv s' := by
  obtain ⟨hlt, hget⟩ := List.getElem?_eq_some_iff.mp hev
  -- the event taken is the oldest of those to take
  have htoTake : s.toTake = ev :: s'.toTake := by
    rw [DeskRun.toTake, DeskRun.toTake, hbase, hseen, List.drop_eq_getElem_cons hlt, hget]
  have htold : s'.told = viewEvent s.told ev := by
    rw [DeskRun.told, DeskRun.told, hbase, hseen, List.take_succ_eq_append_getElem hlt, hget,
      routerView_append]
  refine h.moved hbase hdesk (by omega) ?_ ?_ fun n => ?_
  · rw [hcore, Core.onHubEvent_desk, ← List.foldl_cons, ← htoTake]
    exact h.desk
  · rw [hcore]
    exact Core.onHubEvent_placed h.placed ev
  -- an event changes the view the same way whatever else is in it
  · have hsame : ∀ view view' : Dict String (List Rect), view.get? n = view'.get? n →
        (viewEvent view ev).get? n = (viewEvent view' ev).get? n := by
      intro view view' heq
      cases ev with
      | connected name ms => rw [viewEvent, viewEvent, Dict.get?_put, Dict.get?_put, heq]
      | disconnected name => rw [viewEvent, viewEvent, Dict.get?_drop, Dict.get?_drop, heq]
      | _ => exact heq
    unfold DeskRun.Follows
    rw [hcore, onHubEvent_connected, htold, hbase]
    -- the router's view is the hub's, or the screen is gone and the farewell is on its way
    rcases h.follows n with heq | ⟨hnone, hgone⟩
    · exact .inl (hsame _ _ heq)
    · cases ev with
      | connected name ms =>
        -- the screen of the event, or another one
        by_cases hn : n = name
        · rw [viewEvent, viewEvent, Dict.get?_put, Dict.get?_put, if_pos hn, if_pos hn]
          exact .inl rfl
        · refine .inr ⟨by rw [viewEvent, Dict.get?_put, if_neg hn]; exact hnone, ?_⟩
          refine hgone.imp_right fun hmem => ?_
          rw [htoTake] at hmem
          exact (List.mem_cons.mp hmem).resolve_left (by simp)
      | disconnected name =>
        by_cases hn : n = name
        · rw [viewEvent, viewEvent, Dict.get?_drop, Dict.get?_drop, if_pos hn, if_pos hn]
          exact .inl rfl
        · refine .inr ⟨by rw [viewEvent, Dict.get?_drop, if_neg hn]; exact hnone, ?_⟩
          refine hgone.imp_right fun hmem => ?_
          rw [htoTake] at hmem
          refine (List.mem_cons.mp hmem).resolve_left fun heq => ?_
          injection heq with heq
          exact hn heq
      | _ =>
        refine .inr ⟨hnone, hgone.imp_right fun hmem => ?_⟩
        rw [htoTake] at hmem
        exact (List.mem_cons.mp hmem).resolve_left (by simp)

/-- A client the router finds gone is one it is, or will be, told of. -/
theorem DeskInv.vanished {s s' : DeskRun} (h : DeskInv s) {name : String}
    (hgone : s.io.base.hub.contains name = false) (hbase : s'.io.base = s.io.base)
    (hdesk : s'.desk = s.desk) (hseen : s'.io.seen = s.io.seen)
    (hcore : s'.io.turn.core = (s.io.turn.core.clientDisconnected name).1) : DeskInv s' := by
  have htoTake : s'.toTake = s.toTake := by rw [DeskRun.toTake, hbase, hseen]; rfl
  have htold : s'.told = s.told := by rw [DeskRun.told, hbase, hseen]; rfl
  have hmap := s.io.turn.core.clientDisconnected_map name
  refine h.moved hbase hdesk (hseen ▸ h.seen) ?_ ?_ fun n => ?_
  · rw [htoTake, hcore, hmap.desk]
    exact h.desk
  · rw [hcore]
    exact hmap.placed (Core.placed_refresh _)
  · unfold DeskRun.Follows
    rw [hcore, hmap.connected, htold, htoTake, hbase]
    show (s.io.turn.core.connected.drop name).get? n = _
      ∨ (s.io.turn.core.connected.drop name).get? n = none ∧ _
    rw [Dict.get?_drop]
    by_cases hn : n = name
    · rw [if_pos hn]
      have hclients : s.io.base.hub.clients.get? n = none := by
        rw [hn]
        cases hc : s.io.base.hub.clients.get? name with
        | none => rfl
        | some e => rw [Hub.contains, hc] at hgone; cases hgone
      rcases (h.view n).gone hclients with hnone | hleave
      · by_cases htold : s.told.get? n = none
        · exact .inl htold.symm
        · refine .inr ⟨rfl, .inr (disconnected_mem htold ?_)⟩
          rw [DeskRun.told, routerView, DeskRun.toTake, ← List.foldl_append, List.take_append_drop]
          exact hnone
      · exact .inr ⟨rfl, .inl hleave⟩
    · rw [if_neg hn]
      exact h.follows n

/-! ## Steps

The invariant for every label of the run. -/

/-- A step of the hub, the capture backend or the router. -/
theorem deskInv_input {s : DeskRun} {l : InputLabel} {io : InputRun} (h : DeskInv s)
    (hpost : ∀ ev, l ≠ .hub (.post ev)) (hok : Steady s (.input l)) (hl : s.io.step l = some io) :
    DeskInv { s with io := io } := by
  -- queueing a message changes neither the events nor the map
  have hqueue : ∀ (name : String) (msg : ServerMsg) (io : InputRun), io.base = s.io.queue name msg →
      io.seen = s.io.seen → io.turn.core = s.io.turn.core → DeskInv { s with io := io } := by
    intro name msg io hbase hseen hcore
    obtain ⟨halike, hevents, hadded⟩ := alike_queue s.io name msg
    refine h.sent [] ?_ (fun n => ?_) ?_ hseen hcore rfl (fun n hn => .inl ?_) ?_
    · rw [hbase]; exact h.wf.alike halike
    · rw [hbase]; exact (h.view n).alike halike
    · rw [hbase, hevents, List.append_nil]
    · rw [hbase]; exact hn
    · rw [hbase, hadded]; exact h.added
  cases l with
  -- the hub moves, and says what its step lets it say
  | hub hl' =>
    simp only [InputRun.step] at hl
    split at hl
    · cases hl
    next base hbase =>
      cases hl
      have hstep := hubStep_of_step hbase
      obtain ⟨new, hevents, hdesk, hleaving, hadded⟩ := hstep.sends h.wf fun ev heq =>
        hpost ev (by rw [heq])
      exact h.sent _ (hubWf_step h.wf hstep) (fun n => nameView_step h.wf (h.view n) hok hstep)
        hevents rfl rfl (hdesk _) hleaving (by rw [hadded]; exact h.added)
  | traffic name msg =>
    simp only [InputRun.step] at hl
    split at hl
    · cases hl
    · cases hl
      exact hqueue name msg _ rfl rfl rfl
  | capture ev nowMs =>
    simp only [InputRun.step] at hl
    split at hl
    · cases hl
    next turn hturn =>
      cases hl
      obtain ⟨-, rfl⟩ := Turn.take_eq hturn
      exact h.steady rfl rfl rfl (s.io.turn.core.handle_sameMap ev nowMs)
  -- the router takes the oldest event
  | hubEvent =>
    simp only [InputRun.step] at hl
    split at hl
    · cases hl
    next ev hev =>
      split at hl
      · cases hl
      next turn hturn =>
        cases hl
        obtain ⟨-, rfl⟩ := Turn.take_eq hturn
        exact h.took hev rfl rfl rfl rfl
  -- one thing the reaction does: a send, a command, or a client that is gone
  | act =>
    simp only [InputRun.step] at hl
    split at hl
    · cases hl
    · next turn to_ msg hact =>
      cases hl
      cases Turn.acts_of_act hact with
      | sent hp hok => exact hqueue _ _ _ rfl rfl rfl
    · next turn cmd hact =>
      cases hl
      cases Turn.acts_of_act hact with
      | command hp => exact h.steady rfl rfl rfl .rfl
    · next turn hact =>
      cases hl
      cases Turn.acts_of_act hact with
      | vanished hp hok => exact h.vanished hok rfl rfl rfl rfl

/-- Looking at the desk changes what the editor remembers of it, and nothing of the desk. -/
theorem DeskInv.looked {s : DeskRun} (h : DeskInv s) {desk : DeskState}
    (hdesk : desk.desk = s.desk.desk) : DeskInv { s with desk := desk } := by
  refine ⟨h.wf, h.view, h.seen, h.desk.trans hdesk.symm, h.placed, h.follows, fun n hn => ?_⟩
  have hlayout : desk.layout = s.desk.layout := congrArg DeskPart.layout hdesk
  rw [hlayout]
  exact h.added n hn

/-- The editor replaces a part of the desk and posts an event that says so. -/
theorem DeskInv.post {s : DeskRun} (h : DeskInv s) (ev : HubEvent) (hev : ev.isGeneral = true)
    (desk : DeskState) (hdesk : desk.desk = s.desk.desk.onEvent ev)
    (hlayout : desk.layout = s.desk.layout) : DeskInv ⟨s.io.post ev, desk⟩ :=
  h.sent [ev] (h.wf.alike (alike_post s.io ev hev))
    (fun n => (h.view n).alike (alike_post s.io ev hev)) rfl rfl rfl hdesk.symm
    (fun _ hn => .inl hn) (by rw [hlayout]; exact h.added)

/-- **Every steady step keeps the router's desk on the way to the desk that is shown.** -/
theorem deskInv_step {s s' : DeskRun} {l : DeskLabel} (h : DeskInv s) (hok : Steady s l)
    (hl : s.step l = some s') : DeskInv s' := by
  have hscreens : (s.desk.screens s.io.base.hub).2.desk = s.desk.desk :=
    DeskState.screens_desk _ _
  cases l with
  | input l =>
    -- an event is posted by the desk's own calls, so `input` never does it
    by_cases hpost : ∃ ev, l = .hub (.post ev)
    · obtain ⟨ev, rfl⟩ := hpost
      cases hl
    · have hstep : (s.io.step l).map (fun io => { s with io := io }) = some s' := by
        rw [← hl]
        unfold DeskRun.step
        split
        · next ev heq => cases heq; exact absurd ⟨ev, rfl⟩ hpost
        · next heq => cases heq; rfl
        all_goals next heq => cases heq
      obtain ⟨io, hio, rfl⟩ := Option.map_eq_some_iff.mp hstep
      exact deskInv_input h (fun ev heq => hpost ⟨ev, heq⟩) hok hio
  | snapshot =>
    cases hl
    exact h.looked hscreens
  | applyLayout requested resized =>
    simp only [DeskRun.step] at hl
    split at hl
    · cases hl
      exact h.looked hscreens
    next next sizes _ =>
      cases hl
      -- the sizes are sent first, and then the positions
      have hlooked := h.looked hscreens
      have hsized := hlooked.post (.sizes sizes) rfl
        { (s.desk.screens s.io.base.hub).2 with sizes := sizes } rfl rfl
      exact hsized.post (.positions next) rfl _ rfl rfl
  | approve name =>
    simp only [DeskRun.step] at hl
    split at hl
    · cases hl
      exact h
    next hnew =>
      cases hl
      -- a name that is not on the desk was not added before: what was added is on it
      have hunlisted : s.io.base.hub.added.any (· == name) = false := by
        cases hany : s.io.base.hub.added.any (· == name) with
        | false => rfl
        | true =>
          obtain ⟨x, hx, hxn⟩ := List.any_eq_true.mp hany
          exact absurd (beq_iff_eq.mp hxn ▸ h.added x hx) hnew
      have hadd : s.io.base.hub.addScreen name
          = ({ s.io.base.hub with added := s.io.base.hub.added ++ [name] }.emit (.screenAdded name),
            true) := by
        rw [Hub.addScreen, hunlisted]
        rfl
      have hlayout : (s.desk.layout.addScreen name).1
          = { s.desk.layout with screens := s.desk.layout.screens ++ [name] } := by
        rw [Layout.addScreen, if_neg hnew]
      have halike := alike_post s.io (.screenAdded name) rfl
      refine h.sent [.screenAdded name] (h.wf.alike ?_) (fun n => (h.view n).alike ?_) ?_
        rfl rfl rfl (fun _ hn => .inl hn) ?_
      · dsimp only
        rw [hadd]
        exact ⟨rfl, rfl, rfl, rfl, halike.monitors, halike.view⟩
      · dsimp only
        rw [hadd]
        exact ⟨rfl, rfl, rfl, rfl, halike.monitors, halike.view⟩
      · dsimp only
        rw [hadd]
        rfl
      -- what is added is on the desk from here on
      · intro n hn
        dsimp only at hn ⊢
        rw [hadd] at hn
        rw [hlayout]
        show (s.desk.layout.screens ++ [name]).any (· == n) = true
        rw [List.any_append]
        rcases List.mem_append.mp hn with hn | hn
        · rw [show s.desk.layout.screens.any (· == n) = true from h.added n hn]
          rfl
        · rw [List.mem_singleton.mp hn, List.any_cons, beq_self_eq_true, Bool.true_or, Bool.or_true]
  | localMonitors monitors =>
    simp only [DeskRun.step] at hl
    split at hl
    · cases hl
    next hne =>
      cases hl
      -- a list of no monitors is not sent
      refine h.post _ rfl _ ?_ rfl
      rw [DeskPart.onEvent, if_neg fun hempty => hne (.inl hempty)]
      rfl

/-- The invariant holds in every state reached. -/
theorem deskInv_reach {s : DeskRun} (hs : deskRuns.Reach Steady s) : DeskInv s := by
  refine Lts.Reach.invariant (P := DeskInv) ?_ ?_ hs
  · rintro _ ⟨core, disabled, desk, hnew, hdesk, -, rfl⟩
    exact .start hnew hdesk
  · intro _ _ _ _ ih hok hl
    exact deskInv_step ih hok hl

end GeserDesk
