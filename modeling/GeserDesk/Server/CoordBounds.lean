import GeserDesk.Server.DeskState
import GeserDesk.Server.Handshake

/-!
# Coordinates from outside

`sanitize_monitors` of `geserdesk-server/src/net.rs` and the loops of `DeskState::validate` of
`admin.rs` over a request turn away what is too far off by `i32::abs`, which for the smallest value
wraps around in a release build and panics with overflow checks on. What they let through is within
a million of the origin, and they do not panic, if they come to no coordinate of that value
(`sanitize_of_noMinimum`, `checkPositions_eq`).
-/

namespace GeserDesk

/-- `i32::abs` with overflow checks on; `none` is a panic. -/
def checkedAbs (x : Int) : Option Int := if x = -2147483648 then none else some x.natAbs

/-- `x.abs() <= LIMIT && y.abs() <= LIMIT`, evaluated from the left. -/
def nearChecked (p : Point) : Option Bool :=
  match checkedAbs p.x with
  | none => none
  | some x =>
    if 1000000 < x then some false
    else (checkedAbs p.y).map fun y => decide (y ≤ 1000000)

/-- Within a million of the origin, either way. -/
def Point.Near (p : Point) : Prop :=
  (-1000000 ≤ p.x ∧ p.x ≤ 1000000) ∧ -1000000 ≤ p.y ∧ p.y ≤ 1000000

instance (p : Point) : Decidable p.Near := inferInstanceAs (Decidable (_ ∧ _))

/-- The check comes to the smallest `i32`. -/
def Point.Trips (p : Point) : Prop :=
  p.x = -2147483648 ∨ (-1000000 ≤ p.x ∧ p.x ≤ 1000000) ∧ p.y = -2147483648

instance (p : Point) : Decidable p.Trips := inferInstanceAs (Decidable (_ ∨ _))

/-- With overflow checks a position is tested as without, unless a coordinate is the least `i32`. -/
theorem nearChecked_eq (p : Point) :
    nearChecked p = if p.Trips then none else some (decide p.Near) := by
  unfold nearChecked checkedAbs
  by_cases hx : p.x = -2147483648
  · have htrips : p.Trips := .inl hx
    rw [if_pos hx, if_pos htrips]
  · rw [if_neg hx]
    dsimp only
    by_cases hfar : 1000000 < (p.x.natAbs : Int)
    · have htrips : ¬p.Trips := by unfold Point.Trips; omega
      have hnear : ¬p.Near := by unfold Point.Near; omega
      rw [if_pos hfar, if_neg htrips, decide_eq_false hnear]
    · rw [if_neg hfar]
      by_cases hy : p.y = -2147483648
      · have htrips : p.Trips := .inr ⟨by omega, hy⟩
        rw [if_pos hy, if_pos htrips]
        rfl
      · have htrips : ¬p.Trips := by unfold Point.Trips; omega
        rw [if_neg hy, if_neg htrips, Option.map_some, Option.some.injEq, decide_eq_decide]
        unfold Point.Near
        omega

/-- In a release build the check is right about what does not trip it. -/
theorem absI32_near {p : Point} (h : ¬p.Trips) :
    (absI32 p.x ≤ 1000000 ∧ absI32 p.y ≤ 1000000) ↔ p.Near := by
  unfold Point.Trips at h
  unfold absI32 Point.Near
  split <;> split <;> omega

/-! ## Monitors

A client's monitors are taken over only where their extents are sane. The checked version trips
where a number has no absolute value, which is the smallest one only. -/

namespace Rect

def SaneExtent (r : Rect) : Prop := (0 < r.w ∧ r.w ≤ 1000000) ∧ 0 < r.h ∧ r.h ≤ 1000000

instance (r : Rect) : Decidable r.SaneExtent := inferInstanceAs (Decidable (_ ∧ _))

def Bounded (r : Rect) : Prop := r.SaneExtent ∧ (⟨r.x, r.y⟩ : Point).Near

instance (r : Rect) : Decidable r.Bounded := inferInstanceAs (Decidable (_ ∧ _))

def Trips (r : Rect) : Prop := r.SaneExtent ∧ (⟨r.x, r.y⟩ : Point).Trips

instance (r : Rect) : Decidable r.Trips := inferInstanceAs (Decidable (_ ∧ _))

end Rect

/-- `sane`, with overflow checks on. -/
def saneChecked (r : Rect) : Option Bool :=
  if r.SaneExtent then nearChecked ⟨r.x, r.y⟩ else some false

/-- `filter(sane).take(n)`, with overflow checks on: nothing is looked at past the last one
taken. -/
def takeSane : Nat → List Rect → Option (List Rect)
  | 0, _ => some []
  | _ + 1, [] => some []
  | n + 1, r :: rest =>
    match saneChecked r with
    | none => none
    | some true => (takeSane n rest).map (r :: ·)
    | some false => takeSane (n + 1) rest

def sanitizeChecked (screen : ScreenInfo) : Option (List Rect) :=
  match takeSane maxMonitors screen.monitors with
  | none => none
  | some [] =>
    (saneChecked screen.bounds).map fun sane =>
      [if sane then screen.bounds else ⟨0, 0, 1920, 1080⟩]
  | some list => some list

/-- The rectangles looked at for `n` good ones. -/
def looked : Nat → List Rect → List Rect
  | 0, _ => []
  | _ + 1, [] => []
  | n + 1, r :: rest => r :: looked (if r.Bounded then n else n + 1) rest

/-- No rectangle looked at has the smallest coordinate where it counts. -/
def ScreenInfo.NoMinimum (screen : ScreenInfo) : Prop :=
  (∀ r ∈ looked maxMonitors screen.monitors, ¬r.Trips)
    ∧ ((∀ r ∈ screen.monitors, ¬r.Bounded) → ¬screen.bounds.Trips)

/-- What `sanitize_monitors` promises of its list. -/
structure Sanitized (screen : ScreenInfo) (list : List Rect) : Prop where
  count : 1 ≤ list.length ∧ list.length ≤ 32
  bounded : ∀ r ∈ list, r.Bounded
  kept : screen.monitors.filter (fun r => decide r.Bounded) ≠ [] →
    list = (screen.monitors.filter fun r => decide r.Bounded).take 32

/-- With overflow checks a rectangle is tested as without, unless a coordinate is the least `i32`.
-/
theorem saneChecked_eq (r : Rect) :
    saneChecked r = if r.Trips then none else some (decide r.Bounded) := by
  unfold saneChecked
  by_cases hextent : r.SaneExtent
  · have htrips : r.Trips ↔ (⟨r.x, r.y⟩ : Point).Trips := ⟨fun h => h.2, fun h => ⟨hextent, h⟩⟩
    have hbounded : r.Bounded ↔ (⟨r.x, r.y⟩ : Point).Near := ⟨fun h => h.2, fun h => ⟨hextent, h⟩⟩
    rw [if_pos hextent, nearChecked_eq]
    simp only [htrips, hbounded]
  · have htrips : ¬r.Trips := fun h => hextent h.1
    have hbounded : ¬r.Bounded := fun h => hextent h.1
    rw [if_neg hextent, if_neg htrips, decide_eq_false hbounded]

/-- With wrapping sums a rectangle is tested as with unbounded ones, unless a coordinate is the
least `i32`. -/
theorem saneMonitor_eq {r : Rect} (h : ¬r.Trips) : saneMonitor r = decide r.Bounded := by
  unfold saneMonitor
  rw [decide_eq_decide]
  by_cases hextent : r.SaneExtent
  · have hnear : (absI32 r.x ≤ 1000000 ∧ absI32 r.y ≤ 1000000) ↔ (⟨r.x, r.y⟩ : Point).Near :=
      absI32_near fun ht => h ⟨hextent, ht⟩
    unfold Rect.Bounded
    rw [← hnear]
    unfold Rect.SaneExtent at *
    omega
  · unfold Rect.Bounded
    refine iff_of_false (fun hsane => hextent ?_) fun hb => hextent hb.1
    unfold Rect.SaneExtent
    omega

/-- With overflow checks on the good ones are taken, or a rectangle looked at trips the check. -/
theorem takeSane_eq (n : Nat) (list : List Rect) :
    takeSane n list = if ∃ r ∈ looked n list, r.Trips then none
      else some ((list.filter fun r => decide r.Bounded).take n) := by
  induction list generalizing n with
  | nil => cases n <;> simp [takeSane, looked]
  | cons r rest ih =>
    cases n with
    | zero => simp [takeSane, looked]
    | succ n =>
      rw [takeSane, saneChecked_eq]
      by_cases htrips : r.Trips
      · rw [if_pos htrips, if_pos ⟨r, List.mem_cons_self, htrips⟩]
      · rw [if_neg htrips]
        by_cases hbounded : r.Bounded
        · simp only [hbounded, decide_true, ih, looked, if_true, List.mem_cons, exists_eq_or_imp,
            htrips, false_or, List.filter_cons_of_pos, List.take_succ_cons]
          split <;> rfl
        · simp only [hbounded, decide_false, ih, looked, if_false, List.mem_cons,
            exists_eq_or_imp, htrips, false_or, Bool.false_eq_true, not_false_eq_true,
            List.filter_cons_of_neg]

/-- A release build takes the good ones too, as long as none looked at trips the check. -/
theorem filter_saneMonitor (n : Nat) (list : List Rect) (h : ∀ r ∈ looked n list, ¬r.Trips) :
    (list.filter saneMonitor).take n = (list.filter fun r => decide r.Bounded).take n := by
  induction list generalizing n with
  | nil => rfl
  | cons r rest ih =>
    cases n with
    | zero => rw [List.take_zero, List.take_zero]
    | succ n =>
      have hr := saneMonitor_eq (h r List.mem_cons_self)
      have hrest : ∀ r' ∈ looked (if r.Bounded then n else n + 1) rest, ¬r'.Trips :=
        fun r' hr' => h r' (List.mem_cons_of_mem _ hr')
      by_cases hbounded : r.Bounded
      · rw [if_pos hbounded] at hrest
        rw [List.filter_cons_of_pos (by rw [hr]; exact decide_eq_true hbounded),
          List.filter_cons_of_pos (p := fun r : Rect => decide r.Bounded) (decide_eq_true hbounded),
          List.take_succ_cons, List.take_succ_cons, ih n hrest]
      · rw [if_neg hbounded] at hrest
        rw [List.filter_cons_of_neg (by rw [hr]; simpa using hbounded),
          List.filter_cons_of_neg (p := fun r : Rect => decide r.Bounded) (by simpa using hbounded),
          ih (n + 1) hrest]

/-- No monitor is kept just if none is within the bounds. -/
theorem take_filter_nil {list : List Rect} :
    (list.filter fun r => decide r.Bounded).take maxMonitors = []
      ↔ ∀ r ∈ list, ¬r.Bounded := by
  rw [List.take_eq_nil_iff, List.filter_eq_nil_iff]
  simp [maxMonitors]

/-- Both builds give the same list of good monitors unless they come to the smallest value. -/
theorem sanitize_of_noMinimum {screen : ScreenInfo} (h : screen.NoMinimum) :
    Sanitized screen (sanitizeMonitors screen)
      ∧ sanitizeChecked screen = some (sanitizeMonitors screen) := by
  obtain ⟨hlooked, hbounds⟩ := h
  -- the loop looks at no monitor over which it trips
  have htake := takeSane_eq maxMonitors screen.monitors
  rw [if_neg (by rintro ⟨r, hr, htrips⟩; exact hlooked r hr htrips)] at htake
  have hfilter := filter_saneMonitor maxMonitors screen.monitors hlooked
  cases hlist : (screen.monitors.filter fun r => decide r.Bounded).take maxMonitors with
  -- no monitor passes: the bounds stand in, or the usual screen
  | nil =>
    have hnone := take_filter_nil.mp hlist
    have hsane := hbounds hnone
    have hsanitized : sanitizeMonitors screen
        = [if saneMonitor screen.bounds then screen.bounds else ⟨0, 0, 1920, 1080⟩] := by
      rw [sanitizeMonitors, hfilter, hlist]
    have hchecked : sanitizeChecked screen = some (sanitizeMonitors screen) := by
      rw [hsanitized, sanitizeChecked, htake, hlist]
      simp only [saneChecked_eq, if_neg hsane, Option.map_some, saneMonitor_eq hsane]
    refine ⟨⟨?_, fun r hr => ?_, fun hsome => ?_⟩, hchecked⟩
    · rw [hsanitized, List.length_singleton]
      decide
    · rw [hsanitized, List.mem_singleton] at hr
      rw [hr, saneMonitor_eq hsane]
      by_cases hb : screen.bounds.Bounded
      · rw [decide_eq_true hb, if_pos rfl]
        exact hb
      · rw [decide_eq_false hb, if_neg Bool.false_ne_true]
        decide
    · exact absurd (List.filter_eq_nil_iff.mpr fun r hr => by simpa using hnone r hr) hsome
  -- the first `maxMonitors` that pass
  | cons first rest =>
    have hsanitized : sanitizeMonitors screen = first :: rest := by
      rw [sanitizeMonitors, hfilter, hlist]
    have hchecked : sanitizeChecked screen = some (sanitizeMonitors screen) := by
      rw [hsanitized, sanitizeChecked, htake, hlist]
    rw [hsanitized, ← hlist] at hchecked ⊢
    refine ⟨⟨?_, fun r hr => ?_, fun _ => rfl⟩, hchecked⟩
    · have hlen : ((screen.monitors.filter fun r => decide r.Bounded).take maxMonitors).length
          = rest.length + 1 := by
        rw [hlist, List.length_cons]
      refine ⟨by omega, ?_⟩
      rw [List.length_take]
      exact Nat.min_le_left _ _
    · have hmem := List.mem_of_mem_take hr
      exact of_decide_eq_true (List.mem_filter.mp hmem).2

/-- Where the checked test ends no rectangle it looked at had such a coordinate. -/
theorem noMinimum_of_checked {screen : ScreenInfo} {list : List Rect}
    (h : sanitizeChecked screen = some list) : screen.NoMinimum := by
  unfold sanitizeChecked at h
  rw [takeSane_eq] at h
  by_cases hlooked : ∃ r ∈ looked maxMonitors screen.monitors, r.Trips
  · rw [if_pos hlooked] at h
    cases h
  · rw [if_neg hlooked] at h
    refine ⟨fun r hr htrips => hlooked ⟨r, hr, htrips⟩, fun hnone htrips => ?_⟩
    rw [take_filter_nil.mpr hnone] at h
    simp only [saneChecked_eq, if_pos htrips, Option.map_none] at h
    cases h

/-! ## Positions and sizes asked for

The same for a request: positions within the bounds, sizes kept or refused. -/

/-- The loop over the requested positions, with overflow checks on. -/
def checkPositions : List (String × Point) → Dict String Point →
    Option (Except LayoutError (Dict String Point))
  | [], next => some (.ok next)
  | (name, p) :: rest, next =>
    if (next.get? name).isNone then some (.error (.unknownScreen name))
    else
      match nearChecked p with
      | none => none
      | some false => some (.error (.outOfRange name))
      | some true => checkPositions rest (next.put name p)

/-- The positions the loop comes to. -/
def lookedPositions : List (String × Point) → Dict String Point → List Point
  | [], _ => []
  | (name, p) :: rest, next =>
    if (next.get? name).isNone then []
    else p :: if p.Near then lookedPositions rest (next.put name p) else []

/-- The checked loop over positions ends just if none it comes to has one, and then like the other.
-/
theorem checkPositions_eq (list : List (String × Point)) (next : Dict String Point) :
    checkPositions list next = if ∃ p ∈ lookedPositions list next, p.Trips then none
      else some (list.foldlM (fun next (name, p) =>
        if (next.get? name).isNone then .error (.unknownScreen name)
        else if MAX_COORD < absI32 p.x ∨ MAX_COORD < absI32 p.y then .error (.outOfRange name)
        else .ok (next.put name p)) next) := by
  induction list generalizing next with
  | nil => simp [checkPositions, lookedPositions]; rfl
  | cons e rest ih =>
    obtain ⟨name, p⟩ := e
    rw [checkPositions, lookedPositions, List.foldlM_cons]
    dsimp only
    by_cases hunknown : (next.get? name).isNone = true
    · simp [hunknown]; rfl
    · rw [if_neg hunknown, if_neg hunknown, if_neg hunknown, nearChecked_eq]
      by_cases htrips : p.Trips
      · rw [if_pos htrips, if_pos ⟨p, List.mem_cons_self, htrips⟩]
      · have hnear := absI32_near htrips
        rw [if_neg htrips]
        by_cases hn : p.Near
        · have hkept : ¬(MAX_COORD < absI32 p.x ∨ MAX_COORD < absI32 p.y) := by
            have := hnear.mpr hn
            unfold MAX_COORD
            omega
          rw [decide_eq_true hn, if_pos hn, if_neg hkept]
          simp only [ih, List.mem_cons, exists_eq_or_imp, htrips, false_or]
          rfl
        · have hfar : MAX_COORD < absI32 p.x ∨ MAX_COORD < absI32 p.y := by
            by_contra hnot
            refine hn (hnear.mp ?_)
            unfold MAX_COORD at hnot
            omega
          rw [decide_eq_false hn, if_neg hn, if_pos hfar]
          simp only [List.mem_singleton, exists_eq_left, htrips, if_false]
          rfl

/-- Positions that pass both builds' check are near. -/
theorem near_of_checked {list : List (String × Point)} {next next' : Dict String Point}
    (h : checkPositions list next = some (.ok next')) : ∀ e ∈ list, e.2.Near := by
  induction list generalizing next with
  | nil => exact nofun
  | cons e rest ih =>
    obtain ⟨name, p⟩ := e
    rw [checkPositions] at h
    split at h
    · cases h
    · rw [nearChecked_eq] at h
      split at h
      · cases h
      · cases h
      · next hnear =>
        have hp : p.Near := by
          split at hnear
          · cases hnear
          · exact of_decide_eq_true (Option.some.inj hnear)
        intro e he
        rcases List.mem_cons.mp he with rfl | he
        · exact hp
        · exact ih h e he

/-- A size that is kept is within the bounds of an asked one. -/
def Size.Kept (s : Size) : Prop :=
  (MIN_SIZE ≤ s.w ∧ s.w ≤ MAX_COORD) ∧ MIN_SIZE ≤ s.h ∧ s.h ≤ MAX_COORD

instance (s : Size) : Decidable s.Kept := inferInstanceAs (Decidable (_ ∧ _))

/-- A size that was taken was in range. -/
theorem nextSizes_kept {views : List ScreenView} {sizes next : Dict String Size}
    {resized : Dict String (Option Size)} (h : nextSizes views sizes resized = .ok next)
    {name : String} {asked : Option Size} {s : Size} (hname : resized.get? name = some asked)
    (hs : next.get? name = some s) : s.Kept := by
  have hstep := get?_of_inNameOrder (g := fun k asked =>
    ((views.find? (·.name = k)).bind fun view => sizeAsked view asked).filter fun s => s.Kept)
    ?_ h name
  · rw [hname] at hstep
    exact of_decide_eq_true (Option.filter_eq_some_iff.mp (hstep.symm.trans hs)).2
  · intro acc k asked acc' hok k'
    simp only at hok
    split at hok
    · cases hok
    next view hfind =>
      cases asked with
      | none =>
        cases hok
        rw [hfind]
        exact Dict.get?_drop _ _ _
      | some s =>
        simp only at hok
        split at hok
        · next hnat =>
          cases hok
          have hasked : sizeAsked view (some s) = none := by simp [sizeAsked, hnat]
          rw [hfind, Option.bind_some, hasked]
          exact Dict.get?_drop _ _ _
        · next hnat =>
          split at hok
          · cases hok
          next hin =>
          cases hok
          have hasked : sizeAsked view (some s) = some s := by simp [sizeAsked, hnat]
          have hkept : s.Kept := by
            unfold Size.Kept
            omega
          rw [hfind, Option.bind_some, hasked, Option.filter_some, if_pos (decide_eq_true hkept)]
          exact Dict.get?_put _ _ _ _

end GeserDesk
