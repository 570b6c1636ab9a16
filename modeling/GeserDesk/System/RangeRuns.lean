import GeserDesk.Server.Bounce
import GeserDesk.Server.RequestBounds
import GeserDesk.Server.OneCursor
import GeserDesk.System.ActiveScreen

/-!
# Desk arithmetic over whole runs

The core and the layout editor's state side by side, fed any changes of the clients, any layouts
and any capture events, with every `i32` result they come to in the functions of `DeskRange`.

* **`desk_arithmetic_fits`**: none overflows in a run that keeps within limits: monitors as the
  handshake lets them through, origins that cannot get far, no machine stretched too much.
* **`far_position_overflows`**: a config may place a screen anywhere an `i32` can.
-/

namespace GeserDesk

namespace Core

/-! ## What a reaction computes

The sums of each reaction, as lists. -/

/-- `refresh_origins`. -/
def refreshSums (c : Core) : List Int :=
  let sizeOf (name : String) : Int × Int := deskSize (c.monitorsOf name) (c.sizes.get? name)
  (c.layout.screens.flatMap fun n => Rect.unionSums (c.monitorsOf n))
    ++ effectiveOriginsSums c.layout.screens c.layout sizeOf c.local_ c.positions

/-- One machine of `locate`. -/
def locateOnSums (c : Core) (v : Point) (name : String) : List Int :=
  Rect.unionSums (c.monitorsOf name) ++ (c.frame name).toLocalSums v
    ++ (c.monitorsOf name).flatMap Rect.edgeSums

def locateSums (c : Core) (v : Point) (exclude : String) : List Int :=
  ((c.connected.keys ++ [c.local_]).filter (· ≠ exclude)).flatMap (c.locateOnSums v)

/-- The monitor `local_center` starts from. -/
def homeMonitor (c : Core) : Option Rect :=
  (c.lastLocalMonitor.filter fun m => c.localMonitors.contains m)
    |>.or (c.localMonitors.find? fun m => m.contains ⟨0, 0⟩)
    |>.or c.localMonitors.head?

def localCenterSums (c : Core) : List Int :=
  c.localMonitors.flatMap Rect.edgeSums
    ++ nearestSums (c.homeMonitor.elim ⟨0, 0⟩ Rect.center) c.localMonitors

def pointerSums (c : Core) (p : Point) : List Int :=
  match c.state with
  | .remote _ _ => []
  | .local_ =>
    c.localMonitors.flatMap Rect.edgeSums
      ++ (c.localMonitors.find? fun m => m.contains p).elim [] fun m =>
        atEdgeSums m c.jump ++ stepSums p c.jump ++ nearCornerSums m p
          ++ Rect.unionSums c.localMonitors
          ++ Edge.all.flatMap fun edge =>
            let probe := stepTowards p edge c.jump
            (c.frame c.local_).toDeskSums probe
              ++ c.locateSums ((c.frame c.local_).toDesk probe) c.local_

/-- The middle of a machine's monitors, put on its desk place. -/
def middleSums (c : Core) (name : String) (monitors : List Rect) : List Int :=
  Rect.unionSums monitors ++ Rect.unionSums (c.monitorsOf name)
    ++ (c.frame name).toDeskSums ((Rect.unionAll monitors).elim ⟨0, 0⟩ Rect.center)

def hotkeySums (c : Core) : List Int :=
  match c.state with
  | .remote _ _ => c.localCenterSums
  | .local_ =>
    c.middleSums c.local_ c.localMonitors
      ++ c.connected.entries.flatMap fun e =>
        c.middleSums e.1 e.2
          ++ nearestSums ((Rect.unionAll e.2).elim ⟨0, 0⟩ Rect.center) (c.monitorsOf e.1)

def motionSums (c : Core) (dx dy : Int) : List Int :=
  match c.state with
  | .local_ => []
  | .remote screen pos =>
    let mons := c.monitorsOf screen
    if mons.isEmpty then []
    else
      let kept := nearestPoint pos mons
      let moved : Point := ⟨kept.x + dx, kept.y + dy⟩
      nearestSums pos mons ++ [moved.x, moved.y] ++ mons.flatMap Rect.edgeSums
        ++ Rect.unionSums mons ++ (c.frame screen).toDeskSums moved
        ++ c.locateSums ((c.frame screen).toDesk moved) screen ++ nearestSums moved mons
        ++ c.localMonitors.flatMap Rect.edgeSums
        ++ (⟨0, 0, 0, 0⟩ :: c.localMonitors).flatMap fun lm => insetClampSums lm (c.jump + 1)

def handleSums (c : Core) : CaptureEvent → List Int
  | .pointer p => c.pointerSums p
  | .hotkey => c.hotkeySums
  | .motion dx dy => c.motionSums dx dy
  | .grabFailed | .button .. | .wheel .. | .key _ => []

/-- Every change of the hub works the origins out anew, and losing who has the input puts the
cursor in the middle of this machine's screen. -/
def hubSums (c : Core) (ev : HubEvent) : List Int :=
  (c.onHubEvent ev).1.refreshSums ++ (c.onHubEvent ev).1.localCenterSums

end Core

namespace DeskState

variable {M : Type}

/-- The check for overlaps. -/
def overlapSums (d : DeskState) (hub : Hub M) (next : Dict String Point)
    (sizes : Dict String Size) : List Int :=
  (d.screens hub).1.flatMap fun v =>
    Rect.unionSums v.monitors ++ v.monitors.flatMap fun m =>
      (v.frame next sizes).deskRectSums m ++ ((v.frame next sizes).deskRect m).edgeSums

def validateSums (d : DeskState) (hub : Hub M) (requested : Dict String Point)
    (resized : Dict String (Option Size)) : List Int :=
  d.screensSums hub ++
    match nextPositions (d.shownOrigins hub) requested,
      nextSizes (d.screens hub).1 d.sizes resized with
    | .ok next, .ok sizes => d.overlapSums hub next sizes
    | _, _ => []

end DeskState

/-! ## Within limits

Limits on monitors, sizes and places under which all of them fit. -/

/-- The stretch from `have_` to `want` is allowed. -/
def Limits.Stretch (L : Limits) (want have_ : Int) : Prop :=
  want ≤ L.stretch * have_ ∧ have_ ≤ L.stretch * want

instance (L : Limits) (want have_ : Int) : Decidable (L.Stretch want have_) :=
  inferInstanceAs (Decidable (_ ∧ _))

/-- A machine that is not stretched is within every limit. -/
theorem Limits.factor_one (L : Limits) : L.Factor 1 := by
  have hk : (1 : ℚ) ≤ L.stretch := by exact_mod_cast L.stretch_pos
  exact ⟨by rwa [one_mul], hk⟩

/-- A size asked for within the limit stretches the machine by a factor within it. -/
theorem Limits.Stretch.factor {L : Limits} {want have_ : Int} (h : L.Stretch want have_) :
    L.Factor (Frame.ratio want have_) := by
  unfold Frame.ratio
  split
  · next hreal =>
    have hpos : (0 : ℚ) < have_ := by exact_mod_cast hreal.2
    have hw : (want : ℚ) ≤ L.stretch * have_ := by exact_mod_cast h.1
    have hh : (have_ : ℚ) ≤ L.stretch * want := by exact_mod_cast h.2
    refine ⟨?_, (div_le_iff₀ hpos).mpr hw⟩
    rw [div_mul_eq_mul_div, one_le_div hpos, mul_comm]
    exact hh
  · exact L.factor_one

/-- What a machine with these monitors and this desk size is taken to cover, by itself. -/
def machineBounds (monitors : List Rect) : Rect :=
  (Rect.unionAll monitors).getD ⟨0, 0, DEFAULT_SIZE.1, DEFAULT_SIZE.2⟩

/-- The desk given to the placement keeps to the limits: no position, and no row of all the
screens from one, gets further than an origin may. -/
def Limits.Room (L : Limits) (order : List String) (sizeOf : String → Int × Int)
    (positions : Dict String Point) : Prop :=
  ∃ P W : Int, 0 ≤ P ∧ 0 ≤ W ∧ (∀ n o, positions.get? n = some o → o.Upto P)
    ∧ (∀ n ∈ order, (0 ≤ (sizeOf n).1 ∧ (sizeOf n).1 ≤ W) ∧ 0 ≤ (sizeOf n).2 ∧ (sizeOf n).2 ≤ W)
    ∧ P + (order.length + 2) * W ≤ L.origin

/-- The frame of a machine within the limits is one of those whose sums fit. -/
theorem frame_tame {L : Limits} {o : Point} {monitors : List Rect} {size : Option Size}
    (horigin : o.Upto L.origin) (hmonitors : ∀ m ∈ monitors, m.Bounded)
    (hstretch : ∀ s, size = some s → L.Stretch s.w (machineBounds monitors).w
      ∧ L.Stretch s.h (machineBounds monitors).h) :
    (Frame.new o (Rect.unionAll monitors) size).Tame L := by
  have hbase : (⟨(machineBounds monitors).x, (machineBounds monitors).y⟩ : Point).Upto
      1000000 := by
    unfold machineBounds
    cases hu : Rect.unionAll monitors with
    | none => decide
    | some u =>
      have hupto := unionAll_upto hmonitors hu
      unfold Point.Upto
      simp only [Option.getD_some]
      omega
  cases size with
  | none => exact ⟨horigin, hbase, L.factor_one, L.factor_one⟩
  | some s =>
    obtain ⟨hw, hh⟩ := hstretch s rfl
    exact ⟨horigin, hbase, hw.factor, hh.factor⟩

/-- Where `effective_origins` puts a machine is within the limit on origins, the row and the links
included. -/
theorem Limits.Room.origin {L : Limits} {order : List String} {sizeOf : String → Int × Int}
    {positions : Dict String Point} (hroom : L.Room order sizeOf positions) (layout : Layout)
    (local_ name : String) :
    (((effectiveOrigins order layout sizeOf local_ positions).get? name).getD ⟨0, 0⟩).Upto
      L.origin := by
  obtain ⟨P, W, hP, hW, hpositions, hsizes, hfar⟩ := hroom
  have ho := L.origin_nonneg
  cases hget : (effectiveOrigins order layout sizeOf local_ positions).get? name with
  | none =>
    unfold Point.Upto
    simp only [Option.getD_none]
    omega
  | some o =>
    have hupto := origins_reach hP hW hsizes hpositions hget
    have hsplit : ((order.length : Int) + 2) * W = (order.length + 1) * W + W := by ring
    rw [hsplit] at hfar
    unfold Point.Upto at hupto ⊢
    simp only [Option.getD_some]
    omega

/-- Working the origins out stays in range. -/
theorem Limits.Room.fits {L : Limits} {order : List String} {sizeOf : String → Int × Int}
    {positions : Dict String Point} (hroom : L.Room order sizeOf positions) (layout : Layout)
    (local_ : String) : SumsFit (effectiveOriginsSums order layout sizeOf local_ positions) := by
  obtain ⟨P, W, hP, hW, hpositions, hsizes, hfar⟩ := hroom
  have hlimit := L.bounds.1
  have hk := L.stretch_pos
  unfold Limits.desk at hlimit
  exact effectiveOrigins_fits hP hW hsizes hpositions (by omega)

/-- The middle of a rectangle within reach is within reach. -/
theorem center_upto {r : Rect} (h : (-1000000 ≤ r.x ∧ r.x ≤ 1000000)
    ∧ (-1000000 ≤ r.y ∧ r.y ≤ 1000000) ∧ (0 < r.w ∧ r.w ≤ 3000000) ∧ 0 < r.h ∧ r.h ≤ 3000000) :
    r.center.Upto 3000000 := by
  unfold Point.Upto Rect.center
  rw [Int.tdiv_eq_ediv_of_nonneg (by omega), Int.tdiv_eq_ediv_of_nonneg (by omega)]
  simp only
  omega

/-- The middle of what all monitors of a machine span is within reach. -/
theorem middle_upto {monitors : List Rect} (h : ∀ m ∈ monitors, m.Bounded) :
    ((Rect.unionAll monitors).elim ⟨0, 0⟩ Rect.center).Upto 3000000 := by
  cases hu : Rect.unionAll monitors with
  | none => decide
  | some u => exact center_upto (unionAll_upto h hu)

/-- A point within a bound is within every larger one. -/
theorem Point.Upto.mono {a b : Int} {p : Point} (h : p.Upto a) (hab : a ≤ b) : p.Upto b := by
  unfold Point.Upto at *
  omega

namespace Core

variable {L : Limits} {c : Core}

/-- What the core works with keeps to the limits. -/
structure Within (L : Limits) (c : Core) : Prop where
  local_ : ∀ m ∈ c.localMonitors, m.Bounded
  clients : ∀ n ms, c.connected.get? n = some ms → ∀ m ∈ ms, m.Bounded
  stretch : ∀ n s, c.sizes.get? n = some s → L.Stretch s.w (machineBounds (c.monitorsOf n)).w
    ∧ L.Stretch s.h (machineBounds (c.monitorsOf n)).h
  room : L.Room c.layout.screens (fun n => deskSize (c.monitorsOf n) (c.sizes.get? n)) c.positions
  jump : c.policy.jumpZone ≤ 1000000

/-- Every monitor the core knows of a machine is one `sanitize_monitors` lets through. -/
theorem Within.monitorsOf (h : c.Within L) (name : String) :
    ∀ m ∈ c.monitorsOf name, m.Bounded := by
  unfold Core.monitorsOf
  split
  · exact h.local_
  · cases hget : c.connected.get? name with
    | none => exact nofun
    | some ms => exact h.clients name ms hget

/-- The monitors of a machine that has reported some are real. -/
theorem Within.real (h : c.Within L) {name : String}
    (hsome : ¬(c.monitorsOf name).isEmpty = true) : RealMonitors (c.monitorsOf name) :=
  ⟨fun hnil => hsome (by rw [hnil]; rfl), fun m hm => (h.monitorsOf name m hm).real⟩

/-- A machine's frame is within the limits. -/
theorem Within.frame (h : c.Within L) (hplaced : c.Placed) (name : String) :
    (c.frame name).Tame L := by
  have horigins : c.origins = effectiveOrigins c.layout.screens c.layout
      (fun n => deskSize (c.monitorsOf n) (c.sizes.get? n)) c.local_ c.positions := hplaced
  unfold Core.frame Core.origin
  rw [horigins]
  exact frame_tame (h.room.origin c.layout c.local_ name) (h.monitorsOf name) (h.stretch name)

/-- `refresh` works the origins out from sizes within the limits. -/
theorem refreshSums_fits (h : c.Within L) : SumsFit c.refreshSums := by
  unfold refreshSums
  rw [fits_append, fits_flatMap]
  exact ⟨fun n _ => unionSums_fits (h.monitorsOf n), h.room.fits c.layout c.local_⟩

/-- `locate` takes one point of the desk into every machine's own coordinates. -/
theorem locateSums_fits (h : c.Within L) (hplaced : c.Placed) {v : Point} (hv : v.Upto L.desk)
    (exclude : String) : SumsFit (c.locateSums v exclude) := by
  unfold locateSums
  rw [fits_flatMap]
  intro n _
  unfold locateOnSums
  rw [fits_append, fits_append, fits_flatMap]
  exact ⟨⟨unionSums_fits (h.monitorsOf n), Frame.toLocal_fits (h.frame hplaced n) hv⟩,
    fun m hm => edgeSums_fits (h.monitorsOf n m hm)⟩

/-- The far edges of bounded monitors, one after another. -/
theorem edges_fits {ms : List Rect} (h : ∀ m ∈ ms, m.Bounded) :
    SumsFit (ms.flatMap Rect.edgeSums) :=
  fits_flatMap.mpr fun m hm => edgeSums_fits (h m hm)

/-- The monitor the cursor goes home to is one of this machine's. -/
theorem homeMonitor_mem {m : Rect} (h : c.homeMonitor = some m) : m ∈ c.localMonitors := by
  unfold homeMonitor at h
  rw [Option.or_eq_some_iff, Option.or_eq_some_iff] at h
  rcases h with (h | ⟨-, h⟩) | ⟨-, h⟩
  · exact List.contains_iff_mem.mp (Option.filter_eq_some_iff.mp h).2
  · exact List.mem_of_find?_eq_some h
  · exact List.mem_of_head? h

/-- The middle of the home monitor stays in range. -/
theorem localCenterSums_fits (h : c.Within L) : SumsFit c.localCenterSums := by
  unfold localCenterSums
  rw [fits_append]
  refine ⟨edges_fits h.local_, nearestSums_fits h.local_ ?_⟩
  cases hhome : c.homeMonitor with
  | none => decide
  | some m =>
    have hm := h.local_ m (homeMonitor_mem hhome)
    have hin := onMonitor_upto h.local_ ⟨m, homeMonitor_mem hhome, Rect.center_inside hm.real⟩
    exact hin.mono (by omega)

/-- The jump is one pixel at least and within the limit on the jump zone. -/
theorem jump_upto (h : c.Within L) : 1 ≤ c.jump ∧ c.jump ≤ 1000000 := by
  have := h.jump
  unfold jump
  omega

/-- `on_pointer` looks past the edges of the monitor the cursor is on by no more than the jump. -/
theorem pointerSums_fits (h : c.Within L) (hplaced : c.Placed) (p : Point) :
    SumsFit (c.pointerSums p) := by
  unfold pointerSums
  split
  · exact fits_nil
  · rw [fits_append]
    refine ⟨edges_fits h.local_, ?_⟩
    cases hfind : c.localMonitors.find? fun m => m.contains p with
    | none => exact fits_nil
    | some m =>
      have hmem := List.mem_of_find?_eq_some hfind
      have hm := h.local_ m hmem
      have hin : m.contains p = true := by simpa using List.find?_some hfind
      have hp := onMonitor_upto h.local_ ⟨m, hmem, hin⟩
      have hjump := jump_upto h
      have hprobe : ∀ edge, (stepTowards p edge c.jump).Upto 3000000 := by
        intro edge
        unfold Point.Upto at hp ⊢
        cases edge <;> simp only [stepTowards] <;> omega
      have hedges := edgeSums_fits hm
      unfold Rect.Bounded Rect.SaneExtent Point.Near at hm
      unfold Point.Upto at hp
      simp only at hm
      simp only [Option.elim_some, fits_append, fits_flatMap, atEdgeSums, stepSums,
        nearCornerSums, fits_cons, fits_nil, and_true, Rect.left, Rect.right, Rect.top,
        Rect.bottom, I32]
      refine ⟨⟨⟨⟨⟨hedges, by omega⟩, by omega⟩, hedges, by omega⟩,
        unionSums_fits h.local_⟩, fun edge _ => ?_⟩
      obtain ⟨hfits, hdesk⟩ := Frame.toDesk_fits (h.frame hplaced c.local_) (hprobe edge)
      exact ⟨hfits, locateSums_fits h hplaced hdesk c.local_⟩

/-- The middle of a machine the hotkey enters stays in range. -/
theorem middleSums_fits (h : c.Within L) (hplaced : c.Placed) (name : String) {ms : List Rect}
    (hms : ∀ m ∈ ms, m.Bounded) : SumsFit (c.middleSums name ms) := by
  unfold middleSums
  rw [fits_append, fits_append]
  exact ⟨⟨unionSums_fits hms, unionSums_fits (h.monitorsOf name)⟩,
    (Frame.toDesk_fits (h.frame hplaced name) (middle_upto hms)).1⟩

/-- `on_hotkey` takes either the way home or one such middle. -/
theorem hotkeySums_fits (h : c.Within L) (hplaced : c.Placed) : SumsFit c.hotkeySums := by
  unfold hotkeySums
  split
  · exact localCenterSums_fits h
  · rw [fits_append, fits_flatMap]
    refine ⟨middleSums_fits h hplaced _ h.local_, fun e he => ?_⟩
    have hms := h.clients e.1 e.2 ((Dict.mem_entries_iff _ _ _).mp he)
    rw [fits_append]
    exact ⟨middleSums_fits h hplaced e.1 hms,
      nearestSums_fits (h.monitorsOf e.1) ((middle_upto hms).mono (by omega))⟩

/-- Clamping into a monitor made smaller by the inset, or into nothing where there is no monitor. -/
theorem insetClampSums_fits {r : Rect} (h : r.Bounded ∨ r = ⟨0, 0, 0, 0⟩) {inset : Int}
    (hinset : 0 ≤ inset ∧ inset ≤ 1000001) : SumsFit (insetClampSums r inset) := by
  rcases h with h | rfl
  · unfold Rect.Bounded Rect.SaneExtent Point.Near at h
    simp only at h
    simp only [insetClampSums, fits_append, fits_cons, fits_nil, and_true, Rect.center, I32]
    rw [Int.tdiv_eq_ediv_of_nonneg (by omega), Int.tdiv_eq_ediv_of_nonneg (by omega)]
    omega
  · simp only [insetClampSums, fits_append, fits_cons, fits_nil, and_true, Rect.center, I32,
      Int.zero_tdiv]
    omega

/-- `on_motion` adds a bounded motion to a position on a bounded machine, and looks for it on the
desk. -/
theorem motionSums_fits (h : c.Within L) (hplaced : c.Placed)
    (hpos : ∀ screen pos, c.state = .remote screen pos → pos.Upto 3000000) {dx dy : Int}
    (hd : (-65536 ≤ dx ∧ dx ≤ 65536) ∧ -65536 ≤ dy ∧ dy ≤ 65536) :
    SumsFit (c.motionSums dx dy) := by
  unfold motionSums
  split
  · exact fits_nil
  · next screen pos hstate =>
    dsimp only
    split
    · exact fits_nil
    · next hsome =>
      have hms := h.monitorsOf screen
      have hreal : RealMonitors (c.monitorsOf screen) := h.real hsome
      have hnear := onMonitor_upto hms (nearestPoint_inside hreal pos)
      generalize nearestPoint pos (c.monitorsOf screen) = kept at hnear ⊢
      have hmoved : (⟨kept.x + dx, kept.y + dy⟩ : Point).Upto 3000000 := by
        unfold Point.Upto at hnear ⊢
        simp only
        omega
      have hsum : I32 (kept.x + dx) ∧ I32 (kept.y + dy) := by
        unfold Point.Upto at hnear
        unfold I32
        omega
      have hjump := jump_upto h
      obtain ⟨hfits, hdesk⟩ := Frame.toDesk_fits (h.frame hplaced screen) hmoved
      simp only [fits_append, fits_cons, fits_nil, and_true, fits_flatMap]
      refine ⟨⟨⟨⟨⟨⟨⟨⟨?_, hsum⟩, fun m hm => edgeSums_fits (hms m hm)⟩, unionSums_fits hms⟩, hfits⟩,
        locateSums_fits h hplaced hdesk screen⟩, nearestSums_fits hms (hmoved.mono (by omega))⟩,
        fun m hm => edgeSums_fits (h.local_ m hm)⟩, fun lm hlm => insetClampSums_fits ?_ (by omega)⟩
      · exact nearestSums_fits hms ((hpos screen pos hstate).mono (by omega))
      · rcases List.mem_cons.mp hlm with rfl | hlm
        · exact .inr rfl
        · exact .inl (h.local_ lm hlm)

/-- **Every branch of `handle` stays in range** for a cursor that is on a machine within the limits.
-/
theorem handleSums_fits (h : c.Within L) (hplaced : c.Placed)
    (hpos : ∀ screen pos, c.state = .remote screen pos → pos.Upto 3000000) {ev : CaptureEvent}
    (hev : ∀ dx dy, ev = .motion dx dy → (-65536 ≤ dx ∧ dx ≤ 65536) ∧ -65536 ≤ dy ∧ dy ≤ 65536) :
    SumsFit (c.handleSums ev) := by
  cases ev with
  | pointer p => exact pointerSums_fits h hplaced p
  | hotkey => exact hotkeySums_fits h hplaced
  | motion dx dy => exact motionSums_fits h hplaced hpos (hev dx dy rfl)
  | grabFailed | button | wheel | key => exact fits_nil

/-! ## Where the cursor is

A cursor away from home is on a monitor, so as near as the monitors are. -/

/-- A remote cursor is near the monitors. -/
def RemoteUpto (c : Core) : Prop := ∀ screen pos, c.state = .remote screen pos → pos.Upto 3000000

/-- An event that leaves the state of the core alone leaves the cursor where it was. -/
theorem RemoteUpto.of_state {c c' : Core} (h : c.RemoteUpto) (hstate : c'.state = c.state) :
    c'.RemoteUpto := fun screen pos hs => h screen pos (hstate ▸ hs)

/-- At home there is no position to bound. -/
theorem remoteUpto_local {c : Core} (hstate : c.state = .local_) : c.RemoteUpto := by
  intro screen pos hs
  rw [hstate] at hs
  cases hs

/-- With a client the position is the one it was given. -/
theorem remoteUpto_at {c : Core} {target : String} {q : Point}
    (hstate : c.state = .remote target q) (hq : q.Upto 3000000) : c.RemoteUpto := by
  intro screen pos hs
  rw [hstate] at hs
  cases hs
  exact hq

/-- A point on one of the machine's monitors is within reach. -/
theorem Within.on (h : c.Within L) {name : String} {q : Point}
    (hq : OnMonitor (c.monitorsOf name) q) : q.Upto 3000000 :=
  (onMonitor_upto (h.monitorsOf name) hq).mono (by omega)

/-- A point put onto the nearest monitor of a machine is within reach, and so is one that is left
alone. -/
theorem snapInto_upto (h : c.Within L) (name : String) {p : Point} (hp : p.Upto 3000000) :
    (c.snapInto name p).Upto 3000000 := by
  unfold snapInto
  split
  · exact hp
  · next hsome =>
    have hreal : RealMonitors (c.monitorsOf name) := h.real hsome
    exact h.on (nearestPoint_inside hreal p)

/-- Through a pointer sample the cursor comes to stand on a machine's monitor or stays. -/
theorem onPointer_upto (h : c.Within L) (hpos : c.RemoteUpto) (p : Point) (nowMs : Nat) :
    (c.onPointer p nowMs).1.RemoteUpto := by
  unfold onPointer
  split
  · exact hpos
  · split
    · exact hpos
    · dsimp only
      split
      · exact hpos.of_state rfl
      · next edge target q hcross =>
        have hlocate : c.locate _ c.local_ = some (target, q) := (crossing_spec hcross).2.2
        have hon := (locate_spec hlocate).2.2.2
        split
        · exact remoteUpto_at rfl (h.on hon)
        · exact hpos.of_state rfl
        · exact hpos.of_state rfl

/-- Through the hotkey the cursor comes to stand in the middle of a machine. -/
theorem onHotkey_upto (h : c.Within L) (hpos : c.RemoteUpto) : c.onHotkey.1.RemoteUpto := by
  unfold onHotkey
  split
  · exact remoteUpto_local rfl
  · split
    · next target htarget =>
      obtain ⟨ms, -, hms, -, -⟩ := hotkeyTarget_spec htarget
      refine remoteUpto_at rfl (snapInto_upto h target ?_)
      rw [hms, Option.getD_some]
      cases hu : Rect.unionAll ms with
      | none => decide
      | some u => exact center_upto (unionAll_upto (h.clients target ms hms) hu)
    · exact hpos

/-- Through a motion the cursor comes to stand on the machine it was on or on another. -/
theorem onMotion_upto (h : c.Within L) (hpos : c.RemoteUpto) (dx dy : Int) :
    (c.onMotion dx dy).1.RemoteUpto := by
  unfold onMotion
  split
  · exact hpos
  · next screen pos hremote =>
    dsimp only
    split
    · exact hpos
    · next hsome =>
      have hreal : RealMonitors (c.monitorsOf screen) := h.real hsome
      split
      · next hin => exact remoteUpto_at rfl (h.on (onMonitor_iff_any.mp hin))
      · split
        · next next q hfound =>
          unfold crossTo
          dsimp only
          split
          · exact remoteUpto_local rfl
          · exact remoteUpto_at rfl (h.on (locate_spec hfound).2.2.2)
        · exact remoteUpto_at rfl (h.on (nearestPoint_inside hreal _))

/-- **No event of the capture takes the cursor out of reach.** -/
theorem handle_upto (h : c.Within L) (hpos : c.RemoteUpto) (ev : CaptureEvent) (nowMs : Nat) :
    (c.handle ev nowMs).1.RemoteUpto := by
  cases ev with
  | pointer p => exact onPointer_upto h hpos p nowMs
  | hotkey => exact onHotkey_upto h hpos
  | grabFailed =>
    show c.onGrabFailed.1.RemoteUpto
    unfold onGrabFailed
    split
    · exact remoteUpto_local rfl
    · exact hpos
  | motion dx dy => exact onMotion_upto h hpos dx dy
  | button button down => exact hpos
  | wheel dx dy => exact hpos
  | key k => exact hpos.of_state (c.onKey_aim k).1

/-- An event of the hub leaves the cursor where it was or takes it home. -/
theorem onHubEvent_upto (hpos : c.RemoteUpto) (ev : HubEvent) : (c.onHubEvent ev).1.RemoteUpto := by
  cases ev with
  | connected name monitors => exact hpos.of_state rfl
  | positions positions => exact hpos.of_state rfl
  | sizes sizes => exact hpos.of_state rfl
  | screenAdded name =>
    simp only [onHubEvent, addScreen]
    split <;> exact hpos.of_state rfl
  | localMonitors monitors =>
    simp only [onHubEvent, setLocalMonitors]
    split <;> exact hpos.of_state rfl
  | disconnected name =>
    simp only [onHubEvent, clientDisconnected]
    split
    · split
      · exact remoteUpto_local rfl
      · exact hpos.of_state rfl
    · exact hpos.of_state rfl

/-- The limits are about the map, so they hold of every core with the same one. -/
theorem Within.sameMap {c' : Core} (h : c.Within L) (hmap : SameMap c c') : c'.Within L := by
  have hmons := hmap.monitorsOf
  have hdesk := hmap.desk
  simp only [Core.desk, DeskPart.mk.injEq] at hdesk
  obtain ⟨hlayout, -, hlocal, hpositions, hsizes⟩ := hdesk
  refine ⟨hlocal ▸ h.local_, hmap.connected ▸ h.clients, ?_, ?_, hmap.policy ▸ h.jump⟩
  · rw [hmons, hsizes]
    exact h.stretch
  · rw [hlayout, hmons, hsizes, hpositions]
    exact h.room

end Core

namespace DeskState

variable {L : Limits} {M : Type} {d : DeskState} {hub : Hub M}

/-- What the editor works with keeps to the limits. -/
structure Within (L : Limits) (d : DeskState) (hub : Hub M) : Prop where
  monitors : ∀ n ∈ d.layout.screens, ∀ m ∈ (d.monitorsFor n hub.snapshot).1.1, m.Bounded
  room : L.Room d.layout.screens (d.shownSize hub) d.positions

/-- A request keeps to the limits: how far it moves machines, and how much the sizes it asks for
and those there are stretch them. -/
structure Asks (L : Limits) (d : DeskState) (hub : Hub M) (requested : Dict String Point)
    (resized : Dict String (Option Size)) : Prop where
  positions : ∀ n p, requested.get? n = some p → p.Upto L.origin
  sizes : ∀ n s, resized.get? n = some (some s) ∨ d.sizes.get? n = some s →
    L.Stretch s.w (machineBounds (d.monitorsFor n hub.snapshot).1.1).w
    ∧ L.Stretch s.h (machineBounds (d.monitorsFor n hub.snapshot).1.1).h

/-- A machine that `screens` shows is listed, with the monitors kept for it and the origin worked
out. -/
theorem screens_view {v : ScreenView} (hv : v ∈ (d.screens hub).1) :
    v.name ∈ d.layout.screens ∧ v.monitors = (d.monitorsFor v.name hub.snapshot).1.1
      ∧ v.origin = ((effectiveOrigins d.layout.screens d.layout (d.shownSize hub) d.local_
        d.positions).get? v.name).getD ⟨0, 0⟩ := by
  obtain ⟨hlearned, hmons⟩ := d.allMonitors_spec d.layout.screens hub.snapshot
  have hlayout : (d.allMonitors d.layout.screens hub.snapshot).2.layout = d.layout := by
    rw [hlearned.eq]
  have hlocal : (d.allMonitors d.layout.screens hub.snapshot).2.local_ = d.local_ := by
    rw [hlearned.eq]
  have hpositions : (d.allMonitors d.layout.screens hub.snapshot).2.positions = d.positions := by
    rw [hlearned.eq]
  have hsizes : (d.allMonitors d.layout.screens hub.snapshot).2.sizes = d.sizes := by
    rw [hlearned.eq]
  simp only [screens, hlayout, hlocal, hpositions, hsizes] at hv
  obtain ⟨n, hn, rfl⟩ := List.mem_map.mp hv
  refine ⟨hn, ?_, rfl⟩
  dsimp only
  rw [hmons n hn, Option.getD_some]

/-- What `screens` works out stays in range. -/
theorem screensSums_fits (h : d.Within L hub) : SumsFit (d.screensSums hub) := by
  unfold screensSums
  rw [fits_append, fits_flatMap]
  exact ⟨fun n hn => unionSums_fits (h.monitors n hn), h.room.fits d.layout d.local_⟩

/-- The frame each machine would get from the request is within the limits. -/
theorem asked_tame (h : d.Within L hub) {requested next : Dict String Point}
    {resized : Dict String (Option Size)} {sizes : Dict String Size}
    (hasks : d.Asks L hub requested resized)
    (hnext : nextPositions (d.shownOrigins hub) requested = .ok next)
    (hsizes : nextSizes (d.screens hub).1 d.sizes resized = .ok sizes) {v : ScreenView}
    (hv : v ∈ (d.screens hub).1) : (v.frame next sizes).Tame L := by
  obtain ⟨hlisted, hmonitors, horigin⟩ := screens_view hv
  unfold ScreenView.frame
  rw [nextPositions_screen hnext hv, Option.getD_some]
  refine frame_tame ?_ (hmonitors ▸ h.monitors v.name hlisted) fun s hs => ?_
  · cases hreq : requested.get? v.name with
    | none =>
      rw [Option.getD_none, horigin]
      exact h.room.origin d.layout d.local_ v.name
    | some p => exact hasks.positions v.name p hreq
  · rw [hmonitors]
    refine hasks.sizes v.name s ?_
    rw [nextSizes_get? hsizes (d.screens_find hub hv)] at hs
    split at hs
    · next asked hasked =>
      have hsome := (Option.filter_eq_some_iff.mp hs).1
      exact .inl (hasked.trans (congrArg some hsome))
    · exact .inr hs

/-- The far edges of a desk rectangle stay in range. -/
theorem deskEdges_fits {f : Frame} (h : f.Tame L) {m : Rect} (hm : m.Bounded) :
    SumsFit (f.deskRect m).edgeSums := by
  have hend : (⟨m.right, m.bottom⟩ : Point).Upto 3000000 := by
    unfold Rect.Bounded Rect.SaneExtent Point.Near at hm
    unfold Point.Upto
    simp only [Rect.right, Rect.bottom] at hm ⊢
    omega
  have hdesk := (Frame.toDesk_fits h hend).2
  have hlimit := L.bounds.1
  have ho := L.origin_nonneg
  unfold Point.Upto at hdesk
  simp only [Frame.deskRect, Rect.edgeSums, fits_cons, fits_nil, and_true, I32]
  omega

/-- **`validate` stays in range**, up to the step at which it refuses the request. -/
theorem validateSums_fits (h : d.Within L hub) {requested : Dict String Point}
    {resized : Dict String (Option Size)} (hasks : d.Asks L hub requested resized) :
    SumsFit (d.validateSums hub requested resized) := by
  unfold validateSums
  rw [fits_append]
  refine ⟨screensSums_fits h, ?_⟩
  split
  · next next sizes hnext hsizes =>
    unfold overlapSums
    rw [fits_flatMap]
    intro v hv
    obtain ⟨hlisted, hmonitors, -⟩ := screens_view hv
    have hbounded := hmonitors ▸ h.monitors v.name hlisted
    have htame := asked_tame h hasks hnext hsizes hv
    rw [fits_append, fits_flatMap]
    refine ⟨unionSums_fits hbounded, fun m hm => ?_⟩
    rw [fits_append]
    exact ⟨Frame.deskRect_fits htame (hbounded m hm), deskEdges_fits htame (hbounded m hm)⟩
  · exact fits_nil

/-- **Within the limits the check of a layout does not panic**, and overflow checks make no
difference to what it answers. -/
theorem validateChecked_within (h : d.Within L hub) {requested : Dict String Point}
    {resized : Dict String (Option Size)} (hasks : d.Asks L hub requested resized) :
    d.validateChecked hub requested resized = some (d.validate hub requested resized) := by
  have hmonitors : ∀ v ∈ d.counted hub, ∀ m ∈ v.monitors, m.Bounded := by
    intro v hv m hm
    obtain ⟨hlisted, hshown, -⟩ := screens_view (List.mem_of_mem_filter hv)
    exact h.monitors v.name hlisted m (hshown ▸ hm)
  have htame : d.Passes hub requested resized →
      ∀ v ∈ d.counted hub, (d.askedFrame requested resized v).Tame L := by
    intro hpasses v hv
    obtain ⟨⟨next, hnext⟩, sizes, hsizes⟩ := passes_iff.mp hpasses
    rw [← frame_eq_askedFrame hnext hsizes hv]
    exact asked_tame h hasks hnext hsizes (List.mem_of_mem_filter hv)
  refine validateChecked_eq L ⟨fun p hp htrips => ?_, screensSums_fits h, fun hpasses => ?_⟩
    hmonitors htame
  · -- no position asked for is as far off as the smallest value
    obtain ⟨name, hname⟩ := requested_of_looked hp
    have hupto := hasks.positions name p hname
    have hbounds := L.bounds.1
    unfold Point.Upto at hupto
    unfold Point.Trips at htrips
    unfold Limits.desk at hbounds
    have hk := L.stretch_pos
    omega
  · rw [layoutSums, fits_flatMap]
    intro v hv
    rw [fits_flatMap]
    intro m hm
    have hrect := Frame.deskRect_fits (htame hpasses v hv) (hmonitors v hv m hm)
    rw [Frame.deskRectSums] at hrect
    rw [Frame.deskRectCastSums,
      Frame.deskRectCast_eq (htame hpasses v hv) (hmonitors v hv m hm)]
    exact hrect

end DeskState

/-! ## Runs

The limits are kept by every step, and with them everything computed fits. -/

/-- The router's core and the editor's state, and the hub as the editor sees it. -/
structure RangeRun where
  core : Core
  desk : DeskState
  hub : Hub ServerMsg

inductive RangeLabel where
  | hub (ev : HubEvent)
  | capture (ev : CaptureEvent) (nowMs : Nat)
  /-- Clients come and go. -/
  | clients (hub : Hub ServerMsg)
  | snapshot
  | applyLayout (requested : Dict String Point) (resized : Dict String (Option Size))
  | approve (name : String)
  | localMonitors (monitors : List Rect)

namespace RangeRun

def step (s : RangeRun) : RangeLabel → RangeRun
  | .hub ev => { s with core := (s.core.onHubEvent ev).1 }
  | .capture ev nowMs => { s with core := (s.core.handle ev nowMs).1 }
  | .clients hub => { s with hub := hub }
  | .snapshot => { s with desk := (s.desk.screens s.hub).2 }
  | .applyLayout requested resized =>
    let desk := (s.desk.screens s.hub).2
    match s.desk.validate s.hub requested resized with
    | .error _ => { s with desk := desk }
    | .ok (next, sizes) => { s with desk := { desk with positions := next, sizes := sizes } }
  | .approve name => { s with desk := { s.desk with layout := (s.desk.layout.addScreen name).1 } }
  | .localMonitors monitors =>
    if monitors.isEmpty ∨ monitors = s.desk.localMonitors then s
    else { s with desk := { s.desk with localMonitors := monitors } }

/-- What a step computes. -/
def sums (s : RangeRun) : RangeLabel → List Int
  | .hub ev => s.core.hubSums ev
  | .capture ev _ => s.core.handleSums ev
  | .snapshot => s.desk.screensSums s.hub
  | .applyLayout requested resized => s.desk.validateSums s.hub requested resized
  | .clients _ | .approve _ | .localMonitors _ => []

end RangeRun

/-- The core and the editor's state, fed anything, from one config that meets `ok₀`. -/
def rangeRuns (ok₀ : Core → Prop) : Lts RangeRun RangeLabel where
  init s := s.core.IsNew ∧ ok₀ s.core ∧ s.desk.desk = s.core.desk ∧ s.desk.known = ∅
  step s l := some (s.step l)

/-- The step keeps to the limits. -/
def KeepsWithin (L : Limits) (s : RangeRun) : RangeLabel → Prop
  | .hub ev => (s.core.onHubEvent ev).1.Within L
  | .capture (.motion dx dy) _ => (-65536 ≤ dx ∧ dx ≤ 65536) ∧ -65536 ≤ dy ∧ dy ≤ 65536
  | .snapshot => s.desk.Within L s.hub
  | .applyLayout requested resized =>
    s.desk.Within L s.hub ∧ s.desk.Asks L s.hub requested resized
  | .capture _ _ | .clients _ | .approve _ | .localMonitors _ => True

/-- The invariant: the origins follow, and everything keeps to the limits. -/
structure RangeInv (L : Limits) (s : RangeRun) : Prop where
  placed : s.core.Placed
  within : s.core.Within L
  remote : s.core.RemoteUpto

variable {L : Limits} {s : RangeRun}

/-- The invariant is about the server's core alone. -/
theorem RangeInv.of_core {s' : RangeRun} (h : RangeInv L s) (hcore : s'.core = s.core) :
    RangeInv L s' := by
  constructor <;> rw [hcore]
  · exact h.placed
  · exact h.within
  · exact h.remote

/-- A step that keeps to the limits keeps the core and the desk within them. -/
theorem rangeInv_step (h : RangeInv L s) {l : RangeLabel} (hl : KeepsWithin L s l) :
    RangeInv L (s.step l) := by
  cases l with
  | hub ev => exact ⟨Core.onHubEvent_placed h.placed ev, hl, Core.onHubEvent_upto h.remote ev⟩
  | capture ev nowMs =>
    have hmap := s.core.handle_sameMap ev nowMs
    exact ⟨hmap.placed h.placed, h.within.sameMap hmap, Core.handle_upto h.within h.remote ev nowMs⟩
  | clients hub => exact h.of_core rfl
  | snapshot => exact h.of_core rfl
  | applyLayout requested resized =>
    refine h.of_core ?_
    unfold RangeRun.step
    dsimp only
    split <;> rfl
  | approve name => exact h.of_core rfl
  | localMonitors monitors =>
    refine h.of_core ?_
    unfold RangeRun.step
    dsimp only
    split <;> rfl

/-- **Core and desk are within the limits in every state such a run reaches.** -/
theorem rangeInv_reach (hs : (rangeRuns (Core.Within L)).Reach (KeepsWithin L) s) :
    RangeInv L s := by
  refine Lts.Reach.invariant ?_ ?_ hs
  · rintro s ⟨hnew, hwithin, -, -⟩
    refine ⟨hnew.placed.1, hwithin, fun screen pos hremote => ?_⟩
    have hstart := hnew.start.1
    rw [Core.activeRemote, hremote] at hstart
    cases hstart
  · intro s l s' _ ih hok hl
    cases hl
    exact rangeInv_step ih hok

/-- Every sum of every further step fits. -/
theorem sums_fits (h : RangeInv L s) {l : RangeLabel} (hl : KeepsWithin L s l) :
    SumsFit (s.sums l) := by
  cases l with
  | hub ev =>
    exact (fits_append _ _).mpr ⟨Core.refreshSums_fits hl, Core.localCenterSums_fits hl⟩
  | capture ev nowMs =>
    refine Core.handleSums_fits h.within h.placed h.remote ?_
    rintro dx dy rfl
    exact hl
  | snapshot => exact DeskState.screensSums_fits hl
  | applyLayout requested resized => exact DeskState.validateSums_fits hl.1 hl.2
  | clients hub => exact fits_nil
  | approve name => exact fits_nil
  | localMonitors monitors => exact fits_nil

/-- **In every run that keeps to the limits, no desk coordinate overflows**: neither when the
origins were last worked out nor in any step that keeps to them. -/
theorem desk_arithmetic_fits (L : Limits) {s : RangeRun}
    (hs : (rangeRuns (Core.Within L)).Reach (KeepsWithin L) s) :
    SumsFit s.core.refreshSums ∧ ∀ l, KeepsWithin L s l → SumsFit (s.sums l) :=
  ⟨Core.refreshSums_fits (rangeInv_reach hs).within, fun _ hl => sums_fits (rangeInv_reach hs) hl⟩

/-! ### Two machines side by side, and one far away -/

/-- Origins within a million, and no machine stretched more than eight times. -/
def closeBy : Limits := ⟨1000000, 8, by decide, by decide, by decide⟩

def twoScreensRange : RangeRun where
  core := Core.twoScreens
  desk :=
    { layout := Core.twoScreens.layout
      local_ := Core.twoScreens.local_
      localMonitors := Core.twoScreens.localMonitors
      positions := Core.twoScreens.positions }
  hub := {}

/-- Two screens side by side are within narrow limits. -/
theorem twoScreens_within : Core.twoScreens.Within closeBy := by
  refine ⟨by decide, fun n ms h => ?_, fun n s h => ?_, ⟨2000, 2000, by decide, by decide,
    fun n o h => ?_, by decide, by decide⟩, by decide⟩
  · rw [Core.twoScreens_isNew.placed.2, Dict.get?_empty] at h
    cases h
  · rw [show Core.twoScreens.sizes = ∅ from rfl, Dict.get?_empty] at h
    cases h
  · rw [show Core.twoScreens.positions = Dict.put ∅ "b" ⟨1920, 0⟩ from rfl, Dict.get?_put] at h
    split at h
    · cases h
      decide
    · rw [Dict.get?_empty] at h
      cases h

/-- Larger on the desk than it is by half. -/
def widened : Dict String Size := Dict.put ∅ "b" ⟨2880, 1620⟩

/-- "b" beside this machine, stretched or not. -/
theorem besideB_within {c : Core} (hlayout : c.layout = Core.twoScreens.layout)
    (hlocal : c.local_ = "desk") (hmonitors : c.localMonitors = [⟨0, 0, 1920, 1080⟩])
    (hpositions : c.positions = Core.twoScreens.positions) (hzone : c.policy.jumpZone ≤ 1000000)
    (hconnected : c.connected = Dict.put ∅ "b" [⟨0, 0, 1920, 1080⟩])
    (hsizes : c.sizes = ∅ ∨ c.sizes = widened) : c.Within closeBy := by
  -- two screens of one monitor each
  have hmons : c.monitorsOf = fun name => if name = "desk" then [⟨0, 0, 1920, 1080⟩]
      else if name = "b" then [⟨0, 0, 1920, 1080⟩] else [] := by
    funext name
    unfold Core.monitorsOf
    rw [hlocal, hmonitors, hconnected, Dict.get?_put]
    split
    · rfl
    · split <;> rfl
  -- the screens, the stretch, and the desk around them
  refine ⟨by rw [hmonitors]; decide, fun n ms h => ?_, fun n size h => ?_, ?_, hzone⟩
  · rw [hconnected, Dict.get?_put] at h
    split at h
    · cases h
      decide
    · cases h
  · rcases hsizes with hsizes | hsizes
    · rw [hsizes, Dict.get?_empty] at h
      cases h
    · rw [hsizes, widened, Dict.get?_put] at h
      split at h
      · next hb =>
        cases h
        rw [hmons, hb]
        decide
      · cases h
  -- no origin is further than 2000, no screen wider than 3000
  · refine ⟨2000, 3000, by decide, by decide, fun n o h => ?_, ?_, ?_⟩
    · rw [hpositions, show Core.twoScreens.positions = Dict.put ∅ "b" ⟨1920, 0⟩ from rfl,
        Dict.get?_put] at h
      split at h
      · cases h
        decide
      · cases h
    · rw [hlayout, hmons]
      rcases hsizes with hsizes | hsizes <;> rw [hsizes] <;> decide
    · rw [hlayout]
      decide

/-- "b" comes, is stretched, and is crossed to; a motion there still fits. -/
theorem desk_arithmetic_fits_stretched : ∃ s pos,
    (rangeRuns (Core.Within closeBy)).Reach (KeepsWithin closeBy) s
      ∧ s.core.state = .remote "b" pos ∧ (s.core.frame "b").sx = 3 / 2
      ∧ SumsFit s.core.refreshSums ∧ SumsFit (s.core.motionSums (-5) 700) := by
  -- "b" comes, is stretched, and the cursor crosses onto it
  have hinit : (rangeRuns (Core.Within closeBy)).init twoScreensRange :=
    ⟨Core.twoScreens_isNew, twoScreens_within, rfl, rfl⟩
  let comes : RangeLabel := .hub (.connected "b" [⟨0, 0, 1920, 1080⟩])
  let stretches : RangeLabel := .hub (.sizes widened)
  let crosses : RangeLabel := .capture (.pointer ⟨1919, 500⟩) 0
  have hcomes : KeepsWithin closeBy twoScreensRange comes :=
    besideB_within rfl rfl rfl rfl (by decide) rfl (.inl rfl)
  have hstretches : KeepsWithin closeBy (twoScreensRange.step comes) stretches :=
    besideB_within rfl rfl rfl rfl (by decide) rfl (.inr rfl)
  have hreach : (rangeRuns (Core.Within closeBy)).Reach (KeepsWithin closeBy)
      (((twoScreensRange.step comes).step stretches).step crosses) :=
    .step (.step (.step (.init hinit) hcomes rfl) hstretches rfl) (l := crosses) trivial rfl
  obtain ⟨hplaced, hsteps⟩ := desk_arithmetic_fits closeBy hreach
  have hmotion : (-65536 ≤ (-5 : Int) ∧ (-5 : Int) ≤ 65536) ∧ -65536 ≤ (700 : Int) ∧ (700 : Int) ≤ 65536 := by
    decide
  exact ⟨_, ⟨0, 333⟩, hreach, by decide +kernel, by decide +kernel, hplaced,
    hsteps (.capture (.motion (-5) 700) 1) hmotion⟩

def farAway : Core :=
  ((Core.new ⟨["desk"], ∅⟩ {} "desk" [⟨0, 0, 1920, 1080⟩]
    (Dict.put ∅ "desk" ⟨2147483647, 0⟩)).withSizes ∅).withKeyRules []

/-- A config puts a screen as far away as an `i32` goes, and the end of its row is past that. -/
theorem far_position_overflows :
    ¬ ∀ s, (rangeRuns fun c => ∀ m ∈ c.localMonitors, m.Bounded).Reachable s →
      SumsFit s.core.refreshSums := by
  intro hall
  have hinit : (rangeRuns fun c => ∀ m ∈ c.localMonitors, m.Bounded).init
      { twoScreensRange with
        core := farAway
        desk := { twoScreensRange.desk with
          layout := farAway.layout
          positions := farAway.positions } } :=
    ⟨⟨_, _, _, _, _, _, _, rfl⟩, by decide, rfl, rfl⟩
  have hover : ¬SumsFit farAway.refreshSums := by decide +kernel
  exact hover (hall _ (.init hinit))

end GeserDesk
