import GeserDesk.Server.Placement
import GeserDesk.System.DeskRuns

/-!
# The desk shown and the desk routed

The layout editor and the router work out the origins apart, by the same rules but from what each
knows of the machines. Once the router has caught up they agree on everyone who is connected and
on, but not on the others: the editor remembers the monitors of a machine that is away or turned
off, and the router takes it for one it has never seen.

* **`one_desk`**: they show and route one desk where every machine that is connected and on has an
  origin of its own, or no machine that is away or off has a shape only the editor knows.
* **`remembered_shape_moves_neighbour`**: a machine without an origin is lined up after one that
  has left, in two different places.
-/

namespace GeserDesk

/-! ## What the editor shows

The editor and the router place by the same function, given the same sizes. -/

namespace DeskState

variable {M : Type}

/-- The desk size of `name`, by what the editor knows of its monitors. -/
def sizeOf (d : DeskState) (hub : Hub M) (name : String) : Int × Int :=
  deskSize (d.monitorsFor name hub.snapshot).1.1 (d.sizes.get? name)

/-- Everything shown of a machine that has to do with its place. -/
structure Shows (d : DeskState) (hub : Hub M) (v : ScreenView) : Prop where
  listed : v.name ∈ d.layout.screens
  connected : v.connected = (decide (v.name = d.local_) || (hub.snapshot.get? v.name).isSome)
  disabled : v.disabled = hub.isDisabled v.name
  size : (v.size.w, v.size.h) = d.sizeOf hub v.name
  origin : v.origin = ((effectiveOrigins d.layout.screens d.layout (d.sizeOf hub) d.local_
    d.positions).get? v.name).getD ⟨0, 0⟩

/-- The size `screens` places a screen by. -/
def placedSize (d : DeskState) (hub : Hub M) (n : String) : Int × Int :=
  match (d.allMonitors d.layout.screens hub.snapshot).1.get? n with
  | some (m, _) => deskSize m ((d.screens hub).2.sizes.get? n)
  | none => DEFAULT_SIZE

/-- What is shown of a machine is what `Shows` says of it. -/
theorem screens_shows (d : DeskState) (hub : Hub M) {v : ScreenView}
    (hv : v ∈ (d.screens hub).1) : d.Shows hub v := by
  obtain ⟨hlearned, hget⟩ := d.allMonitors_spec d.layout.screens hub.snapshot
  have hlocal : (d.screens hub).2.local_ = d.local_ := by rw [(d.screens_learned hub).eq]
  have hlayout : (d.screens hub).2.layout = d.layout := by rw [(d.screens_learned hub).eq]
  have hpos : (d.screens hub).2.positions = d.positions := by rw [(d.screens_learned hub).eq]
  have hsizes : (d.screens hub).2.sizes = d.sizes := by rw [(d.screens_learned hub).eq]
  have hshown : ∀ n ∈ d.layout.screens, d.placedSize hub n = d.sizeOf hub n := by
    intro n hn
    unfold placedSize
    rw [hget n hn, hsizes]
    rfl
  obtain ⟨n, hn, rfl⟩ := List.mem_map.mp hv
  refine ⟨hn, ?_, rfl, hshown n hn, ?_⟩
  · show (decide (n = (d.screens hub).2.local_) || _) = _
    rw [hlocal]
  · show ((effectiveOrigins d.layout.screens (d.screens hub).2.layout (d.placedSize hub)
      (d.screens hub).2.local_ (d.screens hub).2.positions).get? n).getD ⟨0, 0⟩ = _
    rw [hlocal, hlayout, hpos, effectiveOrigins_congr hshown]

end DeskState

/-! ## A router that has caught up

The router's places are then those the editor shows. -/

/-- The snapshot has the monitors of every client. -/
theorem Hub.snapshot_get? {M : Type} (h : Hub M) (name : String) :
    h.snapshot.get? name = (h.clients.get? name).map (·.monitors) := Dict.get?_mapVals _ _ _

/-- Once the router has caught up with a quiet hub, it has of the desk what the editor has, and
of the clients what the registry has of those turned on. -/
theorem DeskInv.caughtUp {s : DeskRun} (h : DeskInv s) (hquiet : s.io.base.Quiet)
    (hcaught : s.CaughtUp) : s.io.turn.core.desk = s.desk.desk
      ∧ ∀ n, s.io.turn.core.connected.get? n = s.io.base.expected n := by
  have hnothing : s.toTake = [] := by
    rw [DeskRun.toTake, show s.io.seen = _ from hcaught, List.drop_length]
  have hall : s.told = routerView s.io.base.hub.events := by
    rw [DeskRun.told, show s.io.seen = _ from hcaught, List.take_length]
  refine ⟨?_, fun n => ?_⟩
  · have hdesk := h.desk
    rw [hnothing] at hdesk
    exact hdesk
  · rw [← view_expected h.wf (h.view n) hquiet]
    rcases h.follows n with heq | ⟨-, hleave | hmem⟩
    · rw [heq, hall]
      rfl
    · exact absurd hleave (hquiet.not_leaving n)
    · rw [hnothing] at hmem
      cases hmem

namespace DeskRun

/-- Every machine that is connected and on is shown where the router has it, and as large. -/
def OneDesk (s : DeskRun) : Prop :=
  ∀ v ∈ (s.desk.screens s.io.base.hub).1, v.connected = true → v.disabled = false →
    v.origin = s.io.turn.core.origin v.name
    ∧ (v.size.w, v.size.h)
      = deskSize (s.io.turn.core.monitorsOf v.name) (s.io.turn.core.sizes.get? v.name)

/-- No machine that is away or turned off has a size the router does not take it to have: it has
one set, or what is remembered of it is as large as a machine never seen. -/
def ShapesKnown (s : DeskRun) : Prop :=
  ∀ n ∈ s.desk.layout.screens, n ≠ s.desk.local_ → s.io.base.expected n = none →
    s.desk.sizeOf s.io.base.hub n = deskSize [] (s.desk.sizes.get? n)

/-- Every machine that is connected and on has an origin of its own. -/
def OwnPlaces (s : DeskRun) : Prop :=
  ∀ n ∈ s.desk.layout.screens, n ≠ s.desk.local_ → s.io.base.expected n ≠ none →
    s.desk.positions.get? n ≠ none

instance (s : DeskRun) : Decidable s.ShapesKnown := by unfold ShapesKnown; infer_instance
instance (s : DeskRun) : Decidable s.OwnPlaces := by unfold OwnPlaces; infer_instance
instance (s : DeskRun) : Decidable s.OneDesk := by unfold OneDesk; infer_instance

end DeskRun

/-- **In every steady run, whenever the hub is quiet and the router has caught up, the editor
shows the desk the router routes by**, if every machine connected and on has an origin of its own
or no shape is known to the editor alone. -/
theorem one_desk {s : DeskRun} (hs : deskRuns.Reach Steady s) (hquiet : s.io.base.Quiet)
    (hcaught : s.CaughtUp) (hplaces : s.OwnPlaces ∨ s.ShapesKnown) : s.OneDesk := by
  intro v hv hconnected hon
  have hinv := deskInv_reach hs
  obtain ⟨hdesk, hclients⟩ := hinv.caughtUp hquiet hcaught
  have hshows := s.desk.screens_shows s.io.base.hub hv
  have hplaced := hinv.placed
  simp only [Core.desk, DeskState.desk, DeskPart.mk.injEq] at hdesk
  obtain ⟨hlayout, hlocal, hmons, hpositions, hsizes⟩ := hdesk
  -- what the router places by
  let routed (n : String) : Int × Int :=
    deskSize (s.io.turn.core.monitorsOf n) (s.desk.sizes.get? n)
  have horigin : s.io.turn.core.origin v.name
      = ((effectiveOrigins s.desk.layout.screens s.desk.layout routed s.desk.local_
        s.desk.positions).get? v.name).getD ⟨0, 0⟩ := by
    rw [Core.origin, show s.io.turn.core.origins = _ from hplaced]
    show ((effectiveOrigins s.io.turn.core.layout.screens s.io.turn.core.layout _ _ _).get?
      v.name).getD ⟨0, 0⟩ = _
    rw [hlayout, hlocal, hpositions]
    show ((effectiveOrigins _ _ (fun n => deskSize (s.io.turn.core.monitorsOf n)
      (s.io.turn.core.sizes.get? n)) _ _).get? v.name).getD ⟨0, 0⟩ = _
    rw [hsizes]
  -- the two agree on the size of everyone connected and on
  have hsize : ∀ n, n = s.desk.local_ ∨ s.io.base.expected n ≠ none →
      routed n = s.desk.sizeOf s.io.base.hub n := by
    intro n hn
    show deskSize _ _ = deskSize _ _
    by_cases hself : n = s.desk.local_
    · rw [Core.monitorsOf, if_pos (hself.trans hlocal.symm), hmons, DeskState.monitorsFor,
        if_pos hself]
    · have hknown := hn.resolve_left hself
      rw [Core.monitorsOf, if_neg (hlocal ▸ hself), hclients, DeskState.monitorsFor, if_neg hself,
        Hub.snapshot_get?]
      unfold HubRun.expected at hknown ⊢
      split at hknown
      · exact absurd rfl hknown
      next hoff =>
        rw [if_neg hoff]
        cases he : s.io.base.hub.clients.get? n with
        | none => rw [he] at hknown; exact absurd rfl hknown
        | some e => rfl
  have hpresent : v.name = s.desk.local_ ∨ s.io.base.expected v.name ≠ none := by
    rw [hshows.connected, Bool.or_eq_true, decide_eq_true_eq, Hub.snapshot_get?,
      Option.isSome_map] at hconnected
    refine hconnected.imp_right fun hclient => ?_
    have hoff : v.name ∉ s.io.base.hub.disabled := by
      rw [hshows.disabled] at hon
      exact of_decide_eq_false hon
    unfold HubRun.expected
    rw [if_neg hoff]
    obtain ⟨e, he⟩ := Option.isSome_iff_exists.mp hclient
    simp [he]
  refine ⟨?_, ?_⟩
  · rw [hshows.origin, horigin]
    rcases hplaces with hown | hshapes
    · -- it keeps its own origin, whatever the sizes
      rcases hpresent with hself | hknown
      · have hlisted : s.desk.local_ ∈ s.desk.layout.screens := hself ▸ hshows.listed
        rw [hself, effectiveOrigins_local hlisted, effectiveOrigins_local hlisted]
      · by_cases hself : v.name = s.desk.local_
        · have hlisted : s.desk.local_ ∈ s.desk.layout.screens := hself ▸ hshows.listed
          rw [hself, effectiveOrigins_local hlisted, effectiveOrigins_local hlisted]
        · obtain ⟨o, ho⟩ := Option.ne_none_iff_exists'.mp (hown _ hshows.listed hself hknown)
          rw [effectiveOrigins_configured hshows.listed ho,
            effectiveOrigins_configured hshows.listed ho]
    · have hall : ∀ n ∈ s.desk.layout.screens, s.desk.sizeOf s.io.base.hub n = routed n := by
        intro n hn
        by_cases hthere : n = s.desk.local_ ∨ s.io.base.expected n ≠ none
        · exact (hsize n hthere).symm
        · rw [not_or, not_not] at hthere
          rw [hshapes n hn hthere.1 hthere.2]
          show _ = deskSize (s.io.turn.core.monitorsOf n) _
          rw [Core.monitorsOf, if_neg (hlocal ▸ hthere.1), hclients, hthere.2]
          rfl
      rw [effectiveOrigins_congr hall]
  · rw [hshows.size, ← hsize v.name hpresent, hsizes]

/-! ### A machine that left, and the one after it -/

/-- A server and two clients, none of them placed yet. -/
def threeScreens : Core :=
  ((Core.new ⟨["desk", "b", "c"], ∅⟩ {} "desk" [⟨0, 0, 1920, 1080⟩] ∅).withSizes ∅).withKeyRules []

def threeScreensRun : DeskRun where
  io := { base := HubRun.start [] ∅, turn := ⟨threeScreens, []⟩ }
  desk := { local_ := "desk", localMonitors := [⟨0, 0, 1920, 1080⟩], layout := threeScreens.layout }

/-- Three screens, before anything has happened. -/
theorem threeScreensRun_init : deskRuns.init threeScreensRun :=
  ⟨threeScreens, ∅, threeScreensRun.desk, ⟨_, _, _, _, _, _, _, rfl⟩, rfl, rfl, rfl⟩

/-- "b", a small machine, connects and is shown; "c" connects; "b" leaves; the router takes it
all. -/
def leftBefore : List DeskLabel :=
  [.input (.hub (.registerInsert "b" [⟨0, 0, 800, 600⟩])), .input (.hub (.check 0)),
    .input (.hub (.announce 0)), .snapshot,
    .input (.hub (.registerInsert "c" [⟨0, 0, 1920, 1080⟩])), .input (.hub (.check 1)),
    .input (.hub (.announce 1)), .input (.hub (.remove 0)), .input (.hub (.sayGone 0)),
    .input .hubEvent, .input .hubEvent, .input .hubEvent]

/-- A layout that is applied reaches the router. -/
theorem one_desk_applied : ∃ s, deskRuns.Reach Steady s ∧ s.io.base.Quiet ∧ s.CaughtUp
    ∧ s.OwnPlaces ∧ ¬ s.ShapesKnown ∧ s.OneDesk := by
  have hend : (deskRuns.exec Steady threeScreensRun
      (leftBefore ++ [.applyLayout ∅ ∅, .input .hubEvent, .input .hubEvent])).map
      (fun s => decide (s.io.base.Quiet ∧ s.CaughtUp ∧ s.OwnPlaces ∧ ¬ s.ShapesKnown))
      = some true := by decide +kernel
  obtain ⟨s, hs, hd⟩ := Option.map_eq_some_iff.mp hend
  obtain ⟨hquiet, hcaught, hown, hshapes⟩ := of_decide_eq_true hd
  have hreach := Lts.reach_of_exec threeScreensRun_init hs
  exact ⟨s, hreach, hquiet, hcaught, hown, hshapes, one_desk hreach hquiet hcaught (.inl hown)⟩

/-- A machine without an origin of its own is lined up after one that has left, and the two put it
in different places. -/
theorem remembered_shape_moves_neighbour :
    ¬ ∀ s, deskRuns.Reachable s → s.io.base.Quiet → s.CaughtUp → s.OneDesk := by
  intro hall
  have hend : (deskRuns.run threeScreensRun leftBefore).map
      (fun s => decide (s.io.base.Quiet ∧ s.CaughtUp ∧ ¬ s.OneDesk)) = some true := by
    decide +kernel
  obtain ⟨s, hs, hd⟩ := Option.map_eq_some_iff.mp hend
  obtain ⟨hquiet, hcaught, hnot⟩ := of_decide_eq_true hd
  exact hnot (hall s (Lts.reachable_of_run threeScreensRun_init hs) hquiet hcaught)

end GeserDesk
