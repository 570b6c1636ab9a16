import GeserDesk.Server.DeskOverlap
import GeserDesk.Server.DeskRange

/-!
# A request is checked without a panic

`DeskState::validate` of `geserdesk-server/src/admin.rs` with overflow checks on: besides the two
`i32::abs` of the positions asked for it adds and subtracts coordinates, to show the machines
(`DeskState::screens`) and to lay their monitors out on the desk. `validateChecked` comes to a panic
at the first of these that overflows, and otherwise to what `validate` answers.

* **`coordinates_bounded_iff`**: what `sanitize_monitors` and `validate` let through from outside is
  within a million, and neither panics, exactly if they come to no smallest coordinate and none of
  the sums `validate` gets to overflows. These are the sums of the machines as shown, and, for a
  request that is not turned away before, those of the desk asked for.
* **`smallest_coordinate_passes`**: the smallest coordinate is let through, or panics.
-/

namespace GeserDesk

/-! ## The desk, with the cast from a float

The functions of the desk with every cast and every sum checked. Within bounds they are the plain
ones. -/

namespace Frame

/-- `to_desk`, with the cast that stops at the ends of an `i32`. -/
def toDeskCast (f : Frame) (p : Point) : Point :=
  let at_ (v base origin : Int) (s : ℚ) : Int :=
    origin + base + asI32 (roundHalfAway ((v - base : Int) * s))
  ⟨at_ p.x f.base.x f.origin.x f.sx, at_ p.y f.base.y f.origin.y f.sy⟩

def deskRectCast (f : Frame) (m : Rect) : Rect :=
  let a := f.toDeskCast ⟨m.left, m.top⟩
  let b := f.toDeskCast ⟨m.right, m.bottom⟩
  ⟨a.x, a.y, b.x - a.x, b.y - a.y⟩

def deskRectCastSums (f : Frame) (m : Rect) : List Int :=
  m.edgeSums ++ f.toDeskSums ⟨m.left, m.top⟩ ++ f.toDeskSums ⟨m.right, m.bottom⟩
    ++ [(f.deskRectCast m).w, (f.deskRectCast m).h]

/-- The ends of a desk rectangle are the desk points it was made from, so that comparing two of them
overflows nothing new. -/
theorem edges_of_deskRectCast {f : Frame} {m : Rect} (h : SumsFit (f.deskRectCastSums m)) :
    SumsFit (f.deskRectCast m).edgeSums := by
  simp only [deskRectCastSums, toDeskSums, fits_append, fits_cons, fits_nil, and_true] at h
  obtain ⟨⟨-, ⟨-, -, hx⟩, -, -, hy⟩, -⟩ := h
  simp only [Rect.edgeSums, deskRectCast, toDeskCast, add_sub_cancel, fits_cons, fits_nil, and_true]
  exact ⟨hx, hy⟩

/-- The cast takes nothing away within the limits. -/
theorem toDeskCast_eq {L : Limits} {f : Frame} (h : f.Tame L) {p : Point} (hp : p.Upto 3000000) :
    f.toDeskCast p = f.toDesk p := by
  have haxis : ∀ {v base : Int} {s : ℚ}, L.Factor s → (-3000000 ≤ v ∧ v ≤ 3000000) →
      (-1000000 ≤ base ∧ base ≤ 1000000) →
      asI32 (roundHalfAway ((v - base : Int) * s)) = roundHalfAway ((v - base : Int) * s) := by
    intro v base s hs hv hbase
    have hround := roundHalfAway_upto
      (scaled_upto hs (d := v - base) (b := 4000000) ⟨by omega, by omega⟩)
    have hbounds := L.bounds.1
    have ho := L.origin_nonneg
    refine asI32_of_fits ?_
    unfold I32
    unfold Limits.desk at hbounds
    omega
  simp only [toDeskCast, toDesk, haxis h.sx hp.1 h.base.1, haxis h.sy hp.2 h.base.2]

/-- Within the limits no cast of a desk rectangle changes anything. -/
theorem deskRectCast_eq {L : Limits} {f : Frame} (h : f.Tame L) {m : Rect} (hm : m.Bounded) :
    f.deskRectCast m = f.deskRect m := by
  unfold Rect.Bounded Rect.SaneExtent Point.Near at hm
  simp only at hm
  have htop : (⟨m.left, m.top⟩ : Point).Upto 3000000 := by
    unfold Point.Upto Rect.left Rect.top
    simp only
    omega
  have hend : (⟨m.right, m.bottom⟩ : Point).Upto 3000000 := by
    unfold Point.Upto Rect.right Rect.bottom
    simp only
    omega
  unfold deskRectCast deskRect
  rw [toDeskCast_eq h htop, toDeskCast_eq h hend]

end Frame

namespace DeskState

variable {M : Type} {d : DeskState} {hub : Hub M} {requested : Dict String Point}
  {resized : Dict String (Option Size)}

/-! ## What is computed on the way

The sums a call of `validate` makes before it answers, and the call with all of them checked. -/

/-- The origins a request is checked against. -/
def shownOrigins (d : DeskState) (hub : Hub M) : Dict String Point :=
  (d.screens hub).1.foldl (fun m v => m.put v.name v.origin) ∅

/-- The desk size a listed machine is shown with. -/
def shownSize (d : DeskState) (hub : Hub M) (n : String) : Int × Int :=
  match (d.allMonitors d.layout.screens hub.snapshot).1.get? n with
  | some (m, _) => deskSize m (d.sizes.get? n)
  | none => DEFAULT_SIZE

def screensSums (d : DeskState) (hub : Hub M) : List Int :=
  (d.layout.screens.flatMap fun n => Rect.unionSums (d.monitorsFor n hub.snapshot).1.1)
    ++ effectiveOriginsSums d.layout.screens d.layout (d.shownSize hub) d.local_ d.positions

/-- The machines that count: the ones connected. -/
def counted (d : DeskState) (hub : Hub M) : List ScreenView :=
  (d.screens hub).1.filter (·.connected)

/-- Laying the monitors of these machines out on the desk. -/
def layoutSums (d : DeskState) (hub : Hub M) (frame : ScreenView → Frame) : List Int :=
  (d.counted hub).flatMap fun v => v.monitors.flatMap (frame v).deskRectCastSums

/-- The answer of the check for overlaps, that the positions and sizes are kept or not. -/
def answer (desk : List (String × List Rect)) (next : Dict String Point)
    (sizes : Dict String Size) : Except LayoutError (Dict String Point × Dict String Size) :=
  match firstOverlap desk with
  | some (a, b) => .error (.overlap a b)
  | none => .ok (next, sizes)

/-- `validate`, with overflow checks on. -/
def validateChecked (d : DeskState) (hub : Hub M) (requested : Dict String Point)
    (resized : Dict String (Option Size)) :
    Option (Except LayoutError (Dict String Point × Dict String Size)) :=
  if SumsFit (d.screensSums hub) then
    match checkPositions (inNameOrder requested) (d.shownOrigins hub) with
    | none => none
    | some (.error e) => some (.error e)
    | some (.ok next) =>
      match nextSizes (d.screens hub).1 d.sizes resized with
      | .error e => some (.error e)
      | .ok sizes =>
        if SumsFit (d.layoutSums hub fun v => v.frame next sizes) then
          some (answer ((d.counted hub).map fun v =>
            (v.name, v.monitors.map (v.frame next sizes).deskRectCast)) next sizes)
        else none
  else none

/-! ## What is asked for

Which requests the checks let pass, said of the request alone. -/

/-- No requested position `validate` comes to has the smallest coordinate where it counts. -/
def NoMinimum (d : DeskState) (hub : Hub M) (requested : Dict String Point) : Prop :=
  ∀ p ∈ lookedPositions (inNameOrder requested) (d.shownOrigins hub), ¬p.Trips

/-- The request is not turned away before the desk it asks for is laid out: it names screens that
are shown, no position is too far off, and no size is out of bounds. -/
structure Passes (d : DeskState) (hub : Hub M) (requested : Dict String Point)
    (resized : Dict String (Option Size)) : Prop where
  known : ∀ n p, requested.get? n = some p → n ∈ d.layout.screens
  near : ∀ n p, requested.get? n = some p → absI32 p.x ≤ MAX_COORD ∧ absI32 p.y ≤ MAX_COORD
  sizes : ∀ n asked, resized.get? n = some asked → ∃ v ∈ (d.screens hub).1, v.name = n
    ∧ ∀ s, asked = some s → (s.w, s.h) = deskSize v.monitors none ∨ s.Kept

/-- A request `validate` can be asked: it comes to no smallest coordinate, and no sum overflows. -/
structure Askable (d : DeskState) (hub : Hub M) (requested : Dict String Point)
    (resized : Dict String (Option Size)) : Prop where
  noMinimum : d.NoMinimum hub requested
  shown : SumsFit (d.screensSums hub)
  asked : d.Passes hub requested resized →
    SumsFit (d.layoutSums hub (d.askedFrame requested resized))

/-- The positions the check comes to are among those asked for. -/
theorem requested_of_looked {p : Point}
    (h : p ∈ lookedPositions (inNameOrder requested) (d.shownOrigins hub)) :
    ∃ name, requested.get? name = some p := by
  have hlist : ∀ (list : List (String × Point)) (next : Dict String Point),
      p ∈ lookedPositions list next → ∃ name, (name, p) ∈ list := by
    intro list
    induction list with
    | nil => exact fun _ => nofun
    | cons e list ih =>
      intro next hmem
      rw [lookedPositions] at hmem
      split_ifs at hmem with hunknown hnear
      · cases hmem
      · rcases List.mem_cons.mp hmem with rfl | hmem
        · exact ⟨e.1, List.mem_cons_self⟩
        · obtain ⟨name, hin⟩ := ih _ hmem
          exact ⟨name, List.mem_cons_of_mem _ hin⟩
      · rw [List.mem_singleton.mp hmem]
        exact ⟨e.1, List.mem_cons_self⟩
  obtain ⟨name, hin⟩ := hlist _ _ h
  exact ⟨name, mem_inNameOrder.mp hin⟩

/-- Origins are shown for the screens of the layout. -/
theorem shownOrigins_isSome (d : DeskState) (hub : Hub M) (n : String) :
    ((d.shownOrigins hub).get? n).isSome = true ↔ n ∈ d.layout.screens := by
  obtain ⟨view, hname, hviews⟩ := d.screens_named hub
  have hone : ∀ v ∈ (d.screens hub).1, ∀ w ∈ (d.screens hub).1, v.name = w.name → v = w :=
    fun v hv w hw => screens_unique hv hw
  obtain ⟨hin, hout⟩ := get?_shown (v := view n) ∅ hone
  rw [hname n] at hin hout
  have hnames : (d.screens hub).1.map (·.name) = d.layout.screens := by
    rw [hviews, List.map_map]
    exact (List.map_congr_left fun m _ => hname m).trans (List.map_id _)
  rw [hnames] at hout
  constructor
  · intro hsome
    by_contra hno
    rw [shownOrigins, hout hno] at hsome
    cases hsome
  · intro hn
    rw [shownOrigins, hin (by rw [hviews]; exact List.mem_map_of_mem hn)]
    rfl

/-- The loop over the positions ends if they are known and near. -/
theorem nextPositions_ok_iff {shown : Dict String Point} :
    (∃ next, nextPositions shown requested = .ok next)
      ↔ ∀ n p, requested.get? n = some p → (shown.get? n).isSome = true
        ∧ absI32 p.x ≤ MAX_COORD ∧ absI32 p.y ≤ MAX_COORD := by
  have hall : (∃ next, nextPositions shown requested = .ok next)
      ↔ ∀ e ∈ inNameOrder requested, (shown.get? e.1).isSome = true
        ∧ absI32 e.2.x ≤ MAX_COORD ∧ absI32 e.2.y ≤ MAX_COORD := by
    refine foldlM_ok_iff (P := fun next => ∀ n, (next.get? n).isSome = (shown.get? n).isSome)
      ?_ ?_ fun _ => rfl
    · rintro next ⟨name, p⟩ hkeys
      rw [← hkeys name, ← Option.not_isNone, Bool.not_eq_true']
      dsimp only
      split_ifs with hunknown hfar
      · exact ⟨nofun, fun h => by rw [hunknown] at h; cases h.1⟩
      · exact ⟨nofun, fun h => by omega⟩
      · exact ⟨fun _ => ⟨Bool.eq_false_iff.mpr hunknown, by omega⟩, fun _ => ⟨_, rfl⟩⟩
    · rintro next ⟨name, p⟩ next' hkeys hok n
      dsimp only at hok
      split_ifs at hok with hunknown
      cases hok
      rw [Dict.get?_put]
      split
      · next heq =>
        rw [heq, ← hkeys, Option.isSome_some, eq_comm, ← Option.not_isNone, Bool.not_eq_true']
        exact Bool.eq_false_iff.mpr hunknown
      · exact hkeys n
  refine hall.trans ⟨fun h n p hp => h (n, p) (mem_inNameOrder.mpr hp), fun h e he => ?_⟩
  exact h e.1 e.2 (mem_inNameOrder.mp he)

/-- The loop over the sizes ends if they are of machines shown, and real or within bounds. -/
theorem nextSizes_ok_iff {sizes : Dict String Size} :
    (∃ next, nextSizes (d.screens hub).1 sizes resized = .ok next)
      ↔ ∀ n asked, resized.get? n = some asked → ∃ v ∈ (d.screens hub).1, v.name = n
        ∧ ∀ s, asked = some s → (s.w, s.h) = deskSize v.monitors none ∨ s.Kept := by
  have hall : (∃ next, nextSizes (d.screens hub).1 sizes resized = .ok next)
      ↔ ∀ e ∈ inNameOrder resized, ∃ v ∈ (d.screens hub).1, v.name = e.1
        ∧ ∀ s, e.2 = some s → (s.w, s.h) = deskSize v.monitors none ∨ s.Kept := by
    refine foldlM_ok_iff (P := fun _ => True) ?_ (fun _ _ _ _ _ => trivial) trivial
    rintro sizes ⟨n, asked⟩ -
    dsimp only
    cases hfind : (d.screens hub).1.find? (·.name = n) with
    | none =>
      refine ⟨nofun, ?_⟩
      rintro ⟨v, hv, rfl, -⟩
      rw [screens_find d hub hv] at hfind
      cases hfind
    | some view =>
      have hview := List.mem_of_find?_eq_some hfind
      have hname : view.name = n := by simpa using List.find?_some hfind
      -- the machine of that name is the one that is found
      have hone : (∃ v ∈ (d.screens hub).1, v.name = n
          ∧ ∀ s, asked = some s → (s.w, s.h) = deskSize v.monitors none ∨ s.Kept)
          ↔ ∀ s, asked = some s → (s.w, s.h) = deskSize view.monitors none ∨ s.Kept := by
        constructor
        · rintro ⟨v, hv, hvn, h⟩
          rwa [screens_unique hv hview (hvn.trans hname.symm)] at h
        · exact fun h => ⟨view, hview, hname, h⟩
      rw [hone]
      cases asked with
      | none => exact ⟨fun _ => nofun, fun _ => ⟨_, rfl⟩⟩
      | some s =>
        simp only [Option.some.injEq, forall_eq']
        split_ifs with hnat hout
        · exact ⟨fun _ => .inl hnat, fun _ => ⟨_, rfl⟩⟩
        · refine ⟨nofun, fun h => absurd (h.resolve_left hnat) ?_⟩
          unfold Size.Kept
          omega
        · refine ⟨fun _ => .inr ?_, fun _ => ⟨_, rfl⟩⟩
          unfold Size.Kept
          omega
  refine hall.trans ⟨fun h n asked hn => h (n, asked) (mem_inNameOrder.mpr hn), fun h e he => ?_⟩
  exact h e.1 e.2 (mem_inNameOrder.mp he)

/-- A request passes its own checks just if its positions and its sizes do. -/
theorem passes_iff : d.Passes hub requested resized
    ↔ (∃ next, nextPositions (d.shownOrigins hub) requested = .ok next)
      ∧ ∃ sizes, nextSizes (d.screens hub).1 d.sizes resized = .ok sizes := by
  rw [nextPositions_ok_iff, nextSizes_ok_iff]
  simp only [shownOrigins_isSome]
  exact ⟨fun h => ⟨fun n p hp => ⟨h.known n p hp, h.near n p hp⟩, h.sizes⟩,
    fun h => ⟨fun n p hp => (h.1 n p hp).1, fun n p hp => (h.1 n p hp).2, h.2⟩⟩

/-- The positions and sizes the loops end with are the ones asked for. -/
theorem frame_eq_askedFrame {next : Dict String Point} {sizes : Dict String Size}
    (hnext : nextPositions (d.shownOrigins hub) requested = .ok next)
    (hsizes : nextSizes (d.screens hub).1 d.sizes resized = .ok sizes) {v : ScreenView}
    (hv : v ∈ d.counted hub) : v.frame next sizes = d.askedFrame requested resized v := by
  have hshown : v ∈ (d.screens hub).1 := List.mem_of_mem_filter hv
  have hsize := nextSizes_get? hsizes (d.screens_find hub hshown)
  unfold ScreenView.frame askedFrame
  rw [nextPositions_screen hnext hshown, Option.getD_some]
  cases hasked : resized.get? v.name with
  | none =>
    rw [hasked] at hsize
    rw [hsize]
  | some asked =>
    rw [hasked] at hsize
    rw [hsize]

/-- The sums look at the frames of the machines counted, and at no other. -/
theorem layoutSums_congr {f g : ScreenView → Frame} (h : ∀ v ∈ d.counted hub, f v = g v) :
    d.layoutSums hub f = d.layoutSums hub g := by
  have hsums : ∀ v ∈ d.counted hub, (v.monitors.flatMap (f v).deskRectCastSums)
      = v.monitors.flatMap (g v).deskRectCastSums := fun v hv => by rw [h v hv]
  unfold layoutSums
  rw [List.flatMap_def, List.map_congr_left hsums, List.flatMap_def]

/-! ## The check

The checked call and the plain one agree exactly where nothing overflows. For requests within the
bounds that leaves the places configured already. -/

/-- A request that can be asked is answered. -/
theorem validateChecked_of_askable (h : d.Askable hub requested resized) :
    ∃ answer, d.validateChecked hub requested resized = some answer := by
  have hcheck : checkPositions (inNameOrder requested) (d.shownOrigins hub)
      = some (nextPositions (d.shownOrigins hub) requested) := by
    rw [checkPositions_eq, if_neg (by rintro ⟨p, hp, htrips⟩; exact h.noMinimum p hp htrips)]
    rfl
  rw [validateChecked, if_pos h.shown, hcheck]
  cases hnext : nextPositions (d.shownOrigins hub) requested with
  | error e => exact ⟨_, rfl⟩
  | ok next =>
    cases hsizes : nextSizes (d.screens hub).1 d.sizes resized with
    | error e => exact ⟨_, rfl⟩
    | ok sizes =>
      have hfit := h.asked (passes_iff.mpr ⟨⟨next, hnext⟩, sizes, hsizes⟩)
      rw [← layoutSums_congr fun v hv => frame_eq_askedFrame hnext hsizes hv] at hfit
      exact ⟨_, if_pos hfit⟩

/-- A request that is answered could be asked. -/
theorem askable_of_validateChecked
    {answer : Except LayoutError (Dict String Point × Dict String Size)}
    (h : d.validateChecked hub requested resized = some answer) :
    d.Askable hub requested resized := by
  unfold validateChecked at h
  split at h
  case isFalse => cases h
  next hshown =>
  have hmin : d.NoMinimum hub requested := by
    intro p hp htrips
    rw [checkPositions_eq, if_pos ⟨p, hp, htrips⟩] at h
    cases h
  have hcheck : checkPositions (inNameOrder requested) (d.shownOrigins hub)
      = some (nextPositions (d.shownOrigins hub) requested) := by
    rw [checkPositions_eq, if_neg (by rintro ⟨p, hp, htrips⟩; exact hmin p hp htrips)]
    rfl
  refine ⟨hmin, hshown, fun hpasses => ?_⟩
  obtain ⟨⟨next, hnext⟩, sizes, hsizes⟩ := passes_iff.mp hpasses
  rw [hcheck, hnext, hsizes] at h
  dsimp only at h
  rw [← layoutSums_congr fun v hv => frame_eq_askedFrame hnext hsizes hv]
  by_contra hover
  rw [if_neg hover] at h
  cases h

/-- What is promised of an answer: the positions and sizes asked for are kept as they were asked,
within bounds. -/
def LetsIn (requested : Dict String Point) (resized : Dict String (Option Size))
    (answer : Except LayoutError (Dict String Point × Dict String Size)) : Prop :=
  ∀ positions sizes, answer = .ok (positions, sizes) →
    (∀ name p, requested.get? name = some p → positions.get? name = some p ∧ p.Near)
    ∧ ∀ name asked s, resized.get? name = some asked → sizes.get? name = some s →
      (0 < s.w ∧ s.w ≤ 1000000) ∧ 0 < s.h ∧ s.h ≤ 1000000

/-- The loops let in what is near and within bounds, whatever the check for overlaps says. -/
theorem letsIn_of_noMinimum (hmin : d.NoMinimum hub requested) {next : Dict String Point}
    {sizes : Dict String Size} (hnext : nextPositions (d.shownOrigins hub) requested = .ok next)
    (hsizes : nextSizes (d.screens hub).1 d.sizes resized = .ok sizes)
    (desk : List (String × List Rect)) : LetsIn requested resized (answer desk next sizes) := by
  intro positions sizes' hok
  unfold answer at hok
  split at hok
  · cases hok
  cases hok
  have hcheck : checkPositions (inNameOrder requested) (d.shownOrigins hub) = some (.ok next) := by
    rw [checkPositions_eq, if_neg (by rintro ⟨p, hp, htrips⟩; exact hmin p hp htrips)]
    exact congrArg some hnext
  refine ⟨fun name p hp => ⟨?_, ?_⟩, fun name asked s hasked hs => ?_⟩
  · rw [nextPositions_get? hnext, hp]
    rfl
  · exact near_of_checked hcheck (name, p) (mem_inNameOrder.mpr hp)
  · have hkept := nextSizes_kept hsizes hasked hs
    unfold Size.Kept MIN_SIZE MAX_COORD at hkept
    omega

/-- Where no coordinate asked for is the least `i32`, what is accepted is within the limits. -/
theorem validate_letsIn (hmin : d.NoMinimum hub requested) :
    LetsIn requested resized (d.validate hub requested resized) := by
  intro positions sizes hok
  obtain ⟨hnext, hsizes, hfirst⟩ := validate_eq_ok hok
  exact letsIn_of_noMinimum hmin hnext hsizes
    (((d.screens hub).1.filter (·.connected)).map fun v =>
      (v.name, v.monitors.map (v.frame positions sizes).deskRect)) positions sizes
    (by rw [answer, hfirst])

/-- Where the checked `validate` answers, what it accepts is within the limits. -/
theorem validateChecked_letsIn
    {answer : Except LayoutError (Dict String Point × Dict String Size)}
    (h : d.validateChecked hub requested resized = some answer) :
    LetsIn requested resized answer := by
  have hask := askable_of_validateChecked h
  rw [validateChecked, if_pos hask.shown] at h
  split at h
  · cases h
  · cases h
    exact nofun
  next next hnext =>
  have hnext : nextPositions (d.shownOrigins hub) requested = .ok next := by
    rw [checkPositions_eq] at hnext
    split_ifs at hnext
    exact Option.some.inj hnext
  split at h
  · cases h
    exact nofun
  next sizes hsizes =>
  split_ifs at h
  rw [← Option.some.inj h]
  exact letsIn_of_noMinimum hask.noMinimum hnext hsizes _

/-- **The checked build answers what `validate` answers**, if the machines that count have bounded
monitors and are asked to lie within some limits. -/
theorem validateChecked_eq (L : Limits) (h : d.Askable hub requested resized)
    (hmonitors : ∀ v ∈ d.counted hub, ∀ m ∈ v.monitors, m.Bounded)
    (htame : d.Passes hub requested resized →
      ∀ v ∈ d.counted hub, (d.askedFrame requested resized v).Tame L) :
    d.validateChecked hub requested resized = some (d.validate hub requested resized) := by
  have hcheck : checkPositions (inNameOrder requested) (d.shownOrigins hub)
      = some (nextPositions (d.shownOrigins hub) requested) := by
    rw [checkPositions_eq, if_neg (by rintro ⟨p, hp, htrips⟩; exact h.noMinimum p hp htrips)]
    rfl
  rw [validateChecked, if_pos h.shown, hcheck, validate]
  show _ = some ((nextPositions (d.shownOrigins hub) requested).bind _)
  cases hnext : nextPositions (d.shownOrigins hub) requested with
  | error e => rfl
  | ok next =>
    show _ = some ((nextSizes (d.screens hub).1 d.sizes resized).bind _)
    cases hsizes : nextSizes (d.screens hub).1 d.sizes resized with
    | error e => rfl
    | ok sizes =>
      have hframe := fun v hv => frame_eq_askedFrame (v := v) hnext hsizes hv
      have hpasses := passes_iff.mpr ⟨⟨next, hnext⟩, sizes, hsizes⟩
      have hfit := h.asked hpasses
      rw [← layoutSums_congr hframe] at hfit
      have hdesk : ((d.counted hub).map fun v =>
            (v.name, v.monitors.map (v.frame next sizes).deskRectCast))
          = ((d.screens hub).1.filter (·.connected)).map fun v =>
            (v.name, v.monitors.map (v.frame next sizes).deskRect) :=
        List.map_congr_left fun v hv => congrArg _ (List.map_congr_left fun m hm =>
          Frame.deskRectCast_eq (hframe v hv ▸ htame hpasses v hv) (hmonitors v hv m hm))
      exact (if_pos hfit).trans (congrArg (fun desk => some (answer desk next sizes)) hdesk)

end DeskState

/-- **What comes from outside is bounded, and the checks do not panic, exactly if they come to no
smallest coordinate and no sum overflows.** -/
theorem coordinates_bounded_iff (screen : ScreenInfo) {M : Type} (d : DeskState) (hub : Hub M)
    (requested : Dict String Point) (resized : Dict String (Option Size)) :
    ((Sanitized screen (sanitizeMonitors screen)
        ∧ sanitizeChecked screen = some (sanitizeMonitors screen)) ↔ screen.NoMinimum)
    ∧ ((DeskState.LetsIn requested resized (d.validate hub requested resized)
        ∧ ∃ answer, d.validateChecked hub requested resized = some answer
          ∧ DeskState.LetsIn requested resized answer)
      ↔ d.Askable hub requested resized) := by
  refine ⟨⟨fun h => noMinimum_of_checked h.2, sanitize_of_noMinimum⟩, ?_, fun h => ?_⟩
  · rintro ⟨-, answer, hanswer, -⟩
    exact DeskState.askable_of_validateChecked hanswer
  · obtain ⟨answer, hanswer⟩ := DeskState.validateChecked_of_askable h
    exact ⟨DeskState.validate_letsIn h.noMinimum, answer, hanswer,
      DeskState.validateChecked_letsIn hanswer⟩

/-- A client with a monitor as far left as an `i32` goes. -/
def farLeft : ScreenInfo := ⟨"laptop", ⟨0, 0, 1920, 1080⟩, [⟨-2147483648, 0, 1920, 1080⟩], ⟨0, 0⟩⟩

/-- A server with one client it knows of. -/
def twoMachines : DeskState where
  local_ := "desk"
  localMonitors := [⟨0, 0, 1920, 1080⟩]
  layout := { screens := ["desk", "laptop"] }

def toFarLeft : Dict String Point := (∅ : Dict String Point).put "laptop" ⟨-2147483648, 0⟩

/-- The monitor is let through and the position stored in a release build, and with overflow
checks on both functions panic. -/
theorem smallest_coordinate_passes :
    sanitizeMonitors farLeft = [⟨-2147483648, 0, 1920, 1080⟩]
    ∧ sanitizeChecked farLeft = none
    ∧ ¬Sanitized farLeft (sanitizeMonitors farLeft)
    ∧ (twoMachines.validate ({} : Hub ServerMsg) toFarLeft ∅).toOption.map
        (fun r => r.1.get? "laptop") = some (some ⟨-2147483648, 0⟩)
    ∧ twoMachines.validateChecked ({} : Hub ServerMsg) toFarLeft ∅ = none := by
  refine ⟨by decide +kernel, by decide +kernel, fun h => ?_, by decide +kernel, ?_⟩
  · have hbounded := h.bounded ⟨-2147483648, 0, 1920, 1080⟩ (by decide +kernel)
    revert hbounded
    decide
  · decide +kernel

/-- Nothing is asked for: the machine's own place, which a config may put anywhere, is enough. -/
def placedFarLeft : DeskState where
  local_ := "desk"
  localMonitors := [⟨0, 0, 1920, 1080⟩]
  layout := { screens := ["desk", "laptop"] }
  positions := (∅ : Dict String Point).put "laptop" ⟨-2147483648, 0⟩

/-- A machine with a second monitor on its left is there: where that lies is out of an `i32`. -/
example : placedFarLeft.validateChecked
    ({ clients := (∅ : Dict String _).put "laptop" ⟨[], [⟨-1920, 0, 1920, 1080⟩,
      ⟨0, 0, 1920, 1080⟩]⟩ } : Hub ServerMsg) ∅ ∅ = none := by decide +kernel

end GeserDesk
