import GeserDesk.Lib.FoldM
import GeserDesk.Server.Desk
import GeserDesk.Server.Handshake
import GeserDesk.Server.Hub
import GeserDesk.Server.Trust
import Mathlib.Data.List.Sort
import Mathlib.Data.String.Basic

/-!
# The desk as the layout editor sees it

`DeskState` of `geserdesk-server/src/admin.rs`: the machines a front end draws, and the check a
layout has to pass before the router gets it. The editor works out the origins on its own, from
what the registry and its own memory say of every machine.
-/

namespace GeserDesk

/-- Largest coordinate accepted. -/
def MAX_COORD : Int := 1000000

/-- Smallest width or height a machine may be shrunk to on the desk. -/
def MIN_SIZE : Int := 64

/-- Everything a front end needs to read and change, but for the registry it reads too. -/
structure DeskState where
  /-- `none` when the server runs without TLS. -/
  trust : Option Trust := none
  local_ : String
  localMonitors : List Rect
  layout : Layout
  positions : Dict String Point := ∅
  /-- Desk sizes that differ from a machine's real one. -/
  sizes : Dict String Size := ∅
  /-- Last monitors seen for each screen. -/
  known : Dict String (List Rect) := ∅

/-- One machine on the desk. -/
structure ScreenView where
  name : String
  local_ : Bool
  connected : Bool
  /-- The monitors are a guess: this machine has never connected. -/
  placeholder : Bool
  origin : Point
  size : Size
  monitors : List Rect
  trustedFingerprint : Option Fingerprint
  disabled : Bool
deriving DecidableEq

/-- Why a layout was refused. -/
inductive LayoutError where
  | unknownScreen (name : String)
  | outOfRange (name : String)
  | badSize (name : String)
  | overlap (a b : String)
deriving DecidableEq

/-- `Hub::snapshot`: the monitors of every connected client, the ones turned off too. -/
def Hub.snapshot {M : Type} (h : Hub M) : Dict String (List Rect) :=
  h.clients.mapVals fun _ entry => entry.monitors

/-- A `BTreeMap`'s entries, in the order it is gone through. -/
def inNameOrder {V : Type} (m : Dict String V) : List (String × V) :=
  (List.insertionSort (· ≤ ·) m.keys).filterMap fun k => (m.get? k).map fun v => (k, v)

def intersects (a b : Rect) : Bool :=
  a.left < b.right && b.left < a.right && a.top < b.bottom && b.top < a.bottom

/-- The first two machines of the list with monitors that intersect. -/
def firstOverlap : List (String × List Rect) → Option (String × String)
  | [] => none
  | (a, ma) :: rest =>
    match rest.find? fun b => ma.any fun x => b.2.any fun y => intersects x y with
    | some (b, _) => some (a, b)
    | none => firstOverlap rest

/-- The origins shown, with `requested` in their place where it names a screen. -/
def nextPositions (shown : Dict String Point) (requested : Dict String Point) :
    Except LayoutError (Dict String Point) :=
  (inNameOrder requested).foldlM (fun next (name, p) =>
    if (next.get? name).isNone then .error (.unknownScreen name)
    else if MAX_COORD < absI32 p.x ∨ MAX_COORD < absI32 p.y then .error (.outOfRange name)
    else .ok (next.put name p)) shown

/-- The sizes kept, with the ones `resized` asks for; a size no different from the real one is
not kept. -/
def nextSizes (views : List ScreenView) (sizes : Dict String Size)
    (resized : Dict String (Option Size)) : Except LayoutError (Dict String Size) :=
  (inNameOrder resized).foldlM (fun sizes (name, size) =>
    match views.find? (·.name = name) with
    | none => .error (.unknownScreen name)
    | some view =>
      match size with
      | none => .ok (sizes.drop name)
      | some s =>
        if (s.w, s.h) = deskSize view.monitors none then .ok (sizes.drop name)
        else if s.w < MIN_SIZE ∨ s.h < MIN_SIZE ∨ MAX_COORD < s.w ∨ MAX_COORD < s.h then
          .error (.badSize name)
        else .ok (sizes.put name s)) sizes

section InNameOrder

variable {V W E : Type} {m : Dict String V}

/-- Taking the entries in the order of their names loses none. -/
theorem mem_inNameOrder {k : String} {v : V} : (k, v) ∈ inNameOrder m ↔ m.get? k = some v := by
  rw [inNameOrder, List.mem_filterMap]
  constructor
  · rintro ⟨k', -, h⟩
    obtain ⟨v', hv', h⟩ := Option.map_eq_some_iff.mp h
    cases h
    exact hv'
  · intro h
    refine ⟨k, ?_, by rw [h]; rfl⟩
    rw [List.mem_insertionSort, Dict.mem_keys_iff, h]
    rfl

/-- Entries gone through one by one, each writing at its own key what `g` says of it: every key
among them ends with that, the others with what they had. -/
theorem get?_of_foldlM {step : Dict String W → String × V → Except E (Dict String W)}
    {g : String → V → Option W}
    (hstep : ∀ acc k v acc', step acc (k, v) = .ok acc' →
      ∀ k', acc'.get? k' = if k' = k then g k v else acc.get? k')
    {L : List (String × V)} (hL : ∀ e ∈ L, m.get? e.1 = some e.2) {acc acc' : Dict String W}
    (h : L.foldlM step acc = .ok acc') (k : String) :
    acc'.get? k = if k ∈ L.map Prod.fst then (m.get? k).bind (g k) else acc.get? k := by
  induction L generalizing acc with
  | nil => cases h; rfl
  | cons e L ih =>
    obtain ⟨k₀, v₀⟩ := e
    obtain ⟨acc₁, h₀, htail⟩ := foldlM_cons_ok.mp h
    have hrest := ih (fun e he => hL e (List.mem_cons_of_mem _ he)) htail
    rw [hrest, hstep _ _ _ _ h₀ k]
    have hcons : k ∈ ((k₀, v₀) :: L).map Prod.fst ↔ k = k₀ ∨ k ∈ L.map Prod.fst := by
      rw [List.map_cons, List.mem_cons]
    by_cases hk : k ∈ L.map Prod.fst
    · rw [if_pos hk, if_pos (hcons.mpr (Or.inr hk))]
    · by_cases hk₀ : k = k₀
      · have hv₀ : m.get? k₀ = some v₀ := hL (k₀, v₀) List.mem_cons_self
        rw [if_neg hk, if_pos hk₀, if_pos (hcons.mpr (Or.inl hk₀)), hk₀, hv₀]
        rfl
      · rw [if_neg hk, if_neg hk₀, if_neg fun h => (hcons.mp h).elim hk₀ hk]

/-- A loop over them that sets each name's value once leaves the value of its own step. -/
theorem get?_of_inNameOrder {step : Dict String W → String × V → Except E (Dict String W)}
    {g : String → V → Option W}
    (hstep : ∀ acc k v acc', step acc (k, v) = .ok acc' →
      ∀ k', acc'.get? k' = if k' = k then g k v else acc.get? k')
    {acc acc' : Dict String W} (h : (inNameOrder m).foldlM step acc = .ok acc') (k : String) :
    acc'.get? k = match m.get? k with | some v => g k v | none => acc.get? k := by
  rw [get?_of_foldlM hstep (fun e he => mem_inNameOrder.mp he) h]
  cases hk : m.get? k with
  | some v =>
    have hmem : k ∈ (inNameOrder m).map Prod.fst :=
      List.mem_map.mpr ⟨(k, v), mem_inNameOrder.mpr hk, rfl⟩
    rw [if_pos hmem]
    rfl
  | none =>
    have hmem : k ∉ (inNameOrder m).map Prod.fst := by
      intro hmem
      obtain ⟨⟨k', v⟩, he, rfl⟩ := List.mem_map.mp hmem
      rw [mem_inNameOrder.mp he] at hk
      cases hk
    rw [if_neg hmem]

end InNameOrder

/-- How a machine shown as `v` maps onto the desk with these positions and sizes. -/
def ScreenView.frame (v : ScreenView) (positions : Dict String Point) (sizes : Dict String Size) :
    Frame :=
  Frame.new ((positions.get? v.name).getD ⟨0, 0⟩) (Rect.unionAll v.monitors) (sizes.get? v.name)

/-- The next positions are those asked for, and else those shown. -/
theorem nextPositions_get? {shown requested next : Dict String Point}
    (h : nextPositions shown requested = .ok next) (name : String) :
    next.get? name = (requested.get? name).or (shown.get? name) := by
  have hstep := get?_of_inNameOrder (g := fun _ p => some p) ?_ h name
  · rw [hstep]
    cases requested.get? name <;> rfl
  · intro acc k p acc' hok k'
    simp only at hok
    split at hok
    · cases hok
    split at hok
    · cases hok
    cases hok
    exact Dict.get?_put _ _ _ _

/-- The size a machine ends with when `asked` is asked for it. -/
def sizeAsked (view : ScreenView) (asked : Option Size) : Option Size :=
  asked.filter fun s => (s.w, s.h) ≠ deskSize view.monitors none

/-- The next sizes are those asked for, and else those there were. -/
theorem nextSizes_get? {views : List ScreenView} {sizes next : Dict String Size}
    {resized : Dict String (Option Size)} (h : nextSizes views sizes resized = .ok next)
    {view : ScreenView} {name : String} (hview : views.find? (·.name = name) = some view) :
    next.get? name = match resized.get? name with
      | some asked => sizeAsked view asked
      | none => sizes.get? name := by
  have hstep := get?_of_inNameOrder
    (g := fun k asked => (views.find? (·.name = k)).bind fun view => sizeAsked view asked) ?_ h name
  · rw [hstep]
    cases resized.get? name with
    | none => rfl
    | some asked =>
      show (views.find? _).bind _ = _
      rw [hview]
      rfl
  · intro acc k asked acc' hok k'
    simp only at hok
    split at hok
    · cases hok
    next view hfind =>
      rw [hfind]
      show _ = if k' = k then sizeAsked view asked else _
      cases asked with
      | none => cases hok; exact Dict.get?_drop _ _ _
      | some s =>
        simp only at hok
        split at hok
        · next hnat =>
          cases hok
          have hasked : sizeAsked view (some s) = none := by simp [sizeAsked, hnat]
          rw [hasked]
          exact Dict.get?_drop _ _ _
        · next hnat =>
          split at hok
          · cases hok
          cases hok
          have hasked : sizeAsked view (some s) = some s := by simp [sizeAsked, hnat]
          rw [hasked]
          exact Dict.get?_put _ _ _ _

namespace DeskState

variable {M : Type}

/-- Monitors for `name` and whether they are real, as opposed to a stand-in for a machine that
has never connected. The ones of a machine that is connected are remembered. -/
def monitorsFor (d : DeskState) (name : String) (live : Dict String (List Rect)) :
    (List Rect × Bool) × DeskState :=
  if name = d.local_ then ((d.localMonitors, true), d)
  else
    match live.get? name with
    | some m => ((m, true), { d with known := d.known.put name m })
    | none =>
      match d.known.get? name with
      | some m => ((m, true), d)
      | none => (([⟨0, 0, DEFAULT_SIZE.1, DEFAULT_SIZE.2⟩], false), d)

/-- `monitorsFor` of each of `names`. -/
def allMonitors (d : DeskState) (names : List String) (live : Dict String (List Rect)) :
    Dict String (List Rect × Bool) × DeskState :=
  names.foldl (fun acc n =>
    let (m, d) := acc.2.monitorsFor n live
    (acc.1.put n m, d)) (∅, d)

def screens (d : DeskState) (hub : Hub M) : List ScreenView × DeskState :=
  let live := hub.snapshot
  let names := d.layout.screens
  let (mons, d) := d.allMonitors names live
  let sizeOf (n : String) : Int × Int :=
    match mons.get? n with
    | some (m, _) => deskSize m (d.sizes.get? n)
    | none => DEFAULT_SIZE
  let origins := effectiveOrigins names d.layout sizeOf d.local_ d.positions
  (names.map fun n =>
    let (monitors, known) := (mons.get? n).getD ([], false)
    { name := n
      local_ := decide (n = d.local_)
      connected := decide (n = d.local_) || (live.get? n).isSome
      placeholder := !known
      origin := (origins.get? n).getD ⟨0, 0⟩
      size := ⟨(sizeOf n).1, (sizeOf n).2⟩
      monitors
      trustedFingerprint := d.trust.bind fun t => t.trusted.get? n
      disabled := hub.isDisabled n }, d)

/-- Check `requested` and `resized` against the desk as it is, and give the full positions and
sizes that should replace the stored ones. `resized` says, for each machine named, the desk size
to stretch it to, or `none` to put it back to its real size. -/
def validate (d : DeskState) (hub : Hub M) (requested : Dict String Point)
    (resized : Dict String (Option Size)) :
    Except LayoutError (Dict String Point × Dict String Size) := do
  let views := (d.screens hub).1
  let next ← nextPositions (views.foldl (fun m v => m.put v.name v.origin) ∅) requested
  let sizes ← nextSizes views d.sizes resized
  -- Only machines that are connected count: the others are not shown.
  let desk := (views.filter (·.connected)).map fun v =>
    (v.name, v.monitors.map (v.frame next sizes).deskRect)
  match firstOverlap desk with
  | some (a, b) => .error (.overlap a b)
  | none => .ok (next, sizes)

/-! ## What looking at the desk remembers

Looking at the desk notes the monitors of the connected machines and forgets none. -/

/-- `d'` is `d` with the monitors of clients that are connected remembered. -/
structure Learned (live : Dict String (List Rect)) (d d' : DeskState) : Prop where
  eq : d' = { d with known := d'.known }
  known : ∀ n, live.get? n = none → d'.known.get? n = d.known.get? n

/-- Learning nothing is learning. -/
theorem Learned.refl (live : Dict String (List Rect)) (d : DeskState) : Learned live d d :=
  ⟨rfl, fun _ _ => rfl⟩

/-- Learning twice is learning. -/
theorem Learned.trans {live : Dict String (List Rect)} {d d' d'' : DeskState}
    (h : Learned live d d') (h' : Learned live d' d'') : Learned live d d'' :=
  ⟨h'.eq.trans (by rw [h.eq]), fun n hn => (h'.known n hn).trans (h.known n hn)⟩

/-- Looking up a machine's monitors learns the live ones. -/
theorem monitorsFor_learned (d : DeskState) (name : String) (live : Dict String (List Rect)) :
    Learned live d (d.monitorsFor name live).2 := by
  unfold monitorsFor
  split
  · exact .refl _ _
  · split
    · next m hm =>
      refine ⟨rfl, fun n hn => ?_⟩
      have hne : n ≠ name := by
        rintro rfl
        rw [hn] at hm
        cases hm
      exact (Dict.get?_put _ _ _ _).trans (if_neg hne)
    · split <;> exact .refl _ _

/-- What is remembered on the way changes nobody's monitors. -/
theorem Learned.monitorsFor {live : Dict String (List Rect)} {d d' : DeskState}
    (h : Learned live d d') (name : String) :
    (d'.monitorsFor name live).1 = (d.monitorsFor name live).1 := by
  unfold DeskState.monitorsFor
  have hlocal : d'.local_ = d.local_ := by rw [h.eq]
  have hmons : d'.localMonitors = d.localMonitors := by rw [h.eq]
  rw [hlocal, hmons]
  split
  · rfl
  · cases hlive : live.get? name with
    | some m => rfl
    | none =>
      dsimp only
      rw [h.known name hlive]
      cases d.known.get? name <;> rfl

/-- Looking up the monitors of all machines learns the live ones. -/
theorem allMonitors_spec (d : DeskState) (names : List String) (live : Dict String (List Rect)) :
    Learned live d (d.allMonitors names live).2 ∧ ∀ n ∈ names,
      (d.allMonitors names live).1.get? n = some (d.monitorsFor n live).1 := by
  unfold allMonitors
  suffices hfold : ∀ (names : List String) (acc : Dict String (List Rect × Bool) × DeskState),
      Learned live d acc.2 →
      Learned live d (names.foldl (fun acc n =>
        let (m, d) := acc.2.monitorsFor n live
        (acc.1.put n m, d)) acc).2
      ∧ ∀ n, (n ∈ names ∨ acc.1.get? n = some (d.monitorsFor n live).1) →
        (names.foldl (fun acc n =>
          let (m, d) := acc.2.monitorsFor n live
          (acc.1.put n m, d)) acc).1.get? n = some (d.monitorsFor n live).1 by
    obtain ⟨hlearned, hget⟩ := hfold names (∅, d) (.refl _ _)
    exact ⟨hlearned, fun n hn => hget n (.inl hn)⟩
  intro names
  induction names with
  | nil => exact fun acc h => ⟨h, fun n hn => hn.resolve_left List.not_mem_nil⟩
  | cons name names ih =>
    intro acc h
    obtain ⟨hlearned, hget⟩ := ih (acc.1.put name (acc.2.monitorsFor name live).1,
      (acc.2.monitorsFor name live).2) (h.trans (monitorsFor_learned _ _ _))
    refine ⟨hlearned, fun n hn => hget n ?_⟩
    by_cases hname : n = name
    · refine .inr ?_
      rw [Dict.get?_put, if_pos hname, hname, h.monitorsFor]
    · refine hn.imp (fun hmem => (List.mem_cons.mp hmem).resolve_left hname) fun heq => ?_
      rw [Dict.get?_put, if_neg hname]
      exact heq

/-- A look at the screens learns the live monitors. -/
theorem screens_learned (d : DeskState) (hub : Hub M) :
    Learned hub.snapshot d (d.screens hub).2 :=
  (d.allMonitors_spec d.layout.screens hub.snapshot).1

/-! ## What the check returns

What `validate` answers, and what is set where it answers well. -/

/-- The machines shown are the layout's screens, in its order. -/
theorem screens_named (d : DeskState) (hub : Hub M) : ∃ view : String → ScreenView,
    (∀ n, (view n).name = n) ∧ (d.screens hub).1 = d.layout.screens.map view :=
  ⟨_, fun _ => rfl, rfl⟩

/-- Two of the machines shown with one name are one machine. -/
theorem screens_find (d : DeskState) (hub : Hub M) {v : ScreenView}
    (hv : v ∈ (d.screens hub).1) : (d.screens hub).1.find? (·.name = v.name) = some v := by
  obtain ⟨view, hname, hviews⟩ := d.screens_named hub
  rw [hviews] at hv ⊢
  obtain ⟨n, -, rfl⟩ := List.mem_map.mp hv
  cases hfind : (d.layout.screens.map view).find? (·.name = (view n).name) with
  | none => exact absurd (decide_eq_true rfl) (List.find?_eq_none.mp hfind (view n) hv)
  | some w =>
    have hw : w.name = (view n).name := by simpa using List.find?_some hfind
    obtain ⟨k, -, rfl⟩ := List.mem_map.mp (List.mem_of_find?_eq_some hfind)
    rw [hname, hname] at hw
    rw [hw]

/-- No two machines that are shown have one name. -/
theorem screens_unique {d : DeskState} {hub : Hub M} {v w : ScreenView}
    (hv : v ∈ (d.screens hub).1) (hw : w ∈ (d.screens hub).1) (hname : v.name = w.name) :
    v = w := by
  have hfind := d.screens_find hub hv
  rw [hname, d.screens_find hub hw] at hfind
  exact (Option.some.inj hfind).symm

/-- Names being distinct, what is shown of a machine is its own origin. -/
theorem get?_shown {views : List ScreenView} (acc : Dict String Point)
    (hone : ∀ v ∈ views, ∀ w ∈ views, v.name = w.name → v = w) {v : ScreenView} :
    (v ∈ views → (views.foldl (fun m v => m.put v.name v.origin) acc).get? v.name = some v.origin)
    ∧ (v.name ∉ views.map (·.name) →
      (views.foldl (fun m v => m.put v.name v.origin) acc).get? v.name = acc.get? v.name) := by
  induction views generalizing acc with
  | nil => exact ⟨fun h => absurd h List.not_mem_nil, fun _ => rfl⟩
  | cons w views ih =>
    have hone' : ∀ v ∈ views, ∀ w ∈ views, v.name = w.name → v = w := fun v hv w hw =>
      hone v (List.mem_cons_of_mem _ hv) w (List.mem_cons_of_mem _ hw)
    rw [List.foldl_cons, List.map_cons]
    obtain ⟨hin, hout⟩ := ih (acc.put w.name w.origin) hone'
    constructor
    · intro hv
      by_cases htail : v.name ∈ views.map (·.name)
      · obtain ⟨v', hv', hname⟩ := List.mem_map.mp htail
        exact hin (hone v hv v' (List.mem_cons_of_mem _ hv') hname.symm ▸ hv')
      · have hvw : v = w := by
          rcases List.mem_cons.mp hv with hvw | hvt
          · exact hvw
          · exact absurd (List.mem_map.mpr ⟨v, hvt, rfl⟩) htail
        rw [hout htail, hvw, Dict.get?_put, if_pos rfl]
    · intro hv
      rw [List.mem_cons, not_or] at hv
      rw [hout hv.2, Dict.get?_put, if_neg hv.1]

/-- A screen that is shown is placed where it is asked to be, or where it was. -/
theorem nextPositions_screen {d : DeskState} {hub : Hub M} {requested next : Dict String Point}
    (hnext : nextPositions ((d.screens hub).1.foldl (fun m v => m.put v.name v.origin) ∅)
      requested = .ok next) {v : ScreenView} (hv : v ∈ (d.screens hub).1) :
    next.get? v.name = some ((requested.get? v.name).getD v.origin) := by
  have hone : ∀ v ∈ (d.screens hub).1, ∀ w ∈ (d.screens hub).1, v.name = w.name → v = w :=
    fun v hv w hw => screens_unique hv hw
  rw [nextPositions_get? hnext, (get?_shown _ hone).1 hv]
  cases requested.get? v.name <;> rfl

/-- The three parts of the check, for a layout that passes. -/
theorem validate_eq_ok {d : DeskState} {hub : Hub M} {requested next : Dict String Point}
    {resized : Dict String (Option Size)} {sizes : Dict String Size}
    (h : d.validate hub requested resized = .ok (next, sizes)) :
    nextPositions ((d.screens hub).1.foldl (fun m v => m.put v.name v.origin) ∅) requested
      = .ok next
    ∧ nextSizes (d.screens hub).1 d.sizes resized = .ok sizes
    ∧ firstOverlap (((d.screens hub).1.filter (·.connected)).map fun v =>
      (v.name, v.monitors.map (v.frame next sizes).deskRect)) = none := by
  simp only [validate, bind, Except.bind] at h
  split at h
  · cases h
  next next' hnext =>
  split at h
  · cases h
  next sizes' hsizes =>
  split at h
  · cases h
  next hfirst =>
  cases h
  exact ⟨hnext, hsizes, hfirst⟩

/-- What a layout that passes puts a machine at, and the size it keeps for it, said of what was
asked: a machine not asked about stays where it is shown, with the size it has. -/
theorem validate_ok {d : DeskState} {hub : Hub M} {requested next : Dict String Point}
    {resized : Dict String (Option Size)} {sizes : Dict String Size}
    (h : d.validate hub requested resized = .ok (next, sizes)) {v : ScreenView}
    (hv : v ∈ (d.screens hub).1) :
    next.get? v.name = some ((requested.get? v.name).getD v.origin)
    ∧ sizes.get? v.name = match resized.get? v.name with
      | some asked => sizeAsked v asked
      | none => d.sizes.get? v.name := by
  obtain ⟨hnext, hsizes, -⟩ := validate_eq_ok h
  constructor
  · exact nextPositions_screen hnext hv
  · exact nextSizes_get? hsizes (d.screens_find hub hv)

/-- A screen is on the layout just if it is listed. -/
theorem hasScreen_iff {l : Layout} {n : String} : l.hasScreen n = true ↔ n ∈ l.screens := by
  rw [Layout.hasScreen, List.any_eq_true]
  exact ⟨fun ⟨x, hx, hxn⟩ => beq_iff_eq.mp hxn ▸ hx, fun h => ⟨n, h, beq_self_eq_true n⟩⟩

/-- A layout that passes places the screens of the desk and no others, and gives none of the others
a size it had not. -/
theorem validate_within {d : DeskState} {hub : Hub M} {requested next : Dict String Point}
    {resized : Dict String (Option Size)} {sizes : Dict String Size}
    (h : d.validate hub requested resized = .ok (next, sizes)) :
    (∀ n, next.get? n ≠ none ↔ d.layout.hasScreen n = true)
    ∧ ∀ n s, sizes.get? n = some s → d.sizes.get? n = some s
      ∨ d.layout.hasScreen n = true ∧ 0 < s.w ∧ 0 < s.h := by
  obtain ⟨view, hname, hviews⟩ := d.screens_named hub
  have hok : ∀ {v : ScreenView}, v ∈ (d.screens hub).1 → next.get? v.name ≠ none := by
    intro v hv
    rw [(validate_ok h hv).1]
    nofun
  have hlisted : ∀ v ∈ (d.screens hub).1, d.layout.hasScreen v.name = true := by
    intro v hv
    rw [hviews] at hv
    obtain ⟨k, hk, rfl⟩ := List.mem_map.mp hv
    rw [hname]
    exact hasScreen_iff.mpr hk
  obtain ⟨hnext, hsizes, -⟩ := validate_eq_ok h
  refine ⟨fun n => ⟨fun hn => ?_, fun hn => ?_⟩, fun n s hs => ?_⟩
  -- the loop over positions starts from those shown, and a step that goes on has found its name
  -- there
  · have hshown : ∀ k, ((d.screens hub).1.foldl
        (fun (m : Dict String Point) v => m.put v.name v.origin) ∅).get? k ≠ none →
        d.layout.hasScreen k = true := by
      have hfold : ∀ (views : List ScreenView) (acc : Dict String Point),
          (∀ v ∈ views, d.layout.hasScreen v.name = true) →
          (∀ k, acc.get? k ≠ none → d.layout.hasScreen k = true) → ∀ k,
          (views.foldl (fun (m : Dict String Point) v => m.put v.name v.origin) acc).get? k ≠ none →
          d.layout.hasScreen k = true := by
        intro views
        induction views with
        | nil => exact fun acc _ hacc => hacc
        | cons v views ih =>
          intro acc hv hacc
          refine ih _ (fun w hw => hv w (List.mem_cons_of_mem _ hw)) fun k hk => ?_
          rw [Dict.get?_put] at hk
          split at hk
          · next hkv => rw [hkv]; exact hv v List.mem_cons_self
          · exact hacc k hk
      exact hfold _ ∅ hlisted fun k hk => absurd (Dict.get?_empty k) hk
    have hkeeps := foldlM_keeps (P := fun acc : Dict String Point =>
      ∀ k, acc.get? k ≠ none → d.layout.hasScreen k = true) ?_ hshown hnext
    · exact hkeeps n hn
    · rintro acc ⟨k, p⟩ acc' hacc hstep j hj
      simp only at hstep
      split at hstep
      · cases hstep
      next hin =>
      split at hstep
      · cases hstep
      cases hstep
      rw [Dict.get?_put] at hj
      split at hj
      · next hjk => rw [hjk]; exact hacc k fun hnone => hin (by rw [hnone]; rfl)
      · exact hacc j hj
  -- the other way round, every listed machine is shown and so has a position
  · have hmem : view n ∈ (d.screens hub).1 := by
      rw [hviews]
      exact List.mem_map_of_mem (hasScreen_iff.mp hn)
    rw [← hname n]
    exact hok hmem
  -- the loop over sizes starts from those there were, and sets one only of a machine that is shown
  · have hkeeps := foldlM_keeps (P := fun acc : Dict String Size =>
      ∀ k s, acc.get? k = some s → d.sizes.get? k = some s
        ∨ d.layout.hasScreen k = true ∧ 0 < s.w ∧ 0 < s.h) ?_ (fun _ _ => .inl) hsizes
    · exact hkeeps n s hs
    · rintro acc ⟨k, asked⟩ acc' hacc hstep j s hj
      have hdrop : acc' = acc.drop k → d.sizes.get? j = some s
          ∨ d.layout.hasScreen j = true ∧ 0 < s.w ∧ 0 < s.h := by
        rintro rfl
        rw [Dict.get?_drop] at hj
        split at hj
        · cases hj
        · exact hacc j s hj
      simp only at hstep
      split at hstep
      · cases hstep
      next v hfind =>
      cases asked with
      | none => cases hstep; exact hdrop rfl
      | some asked =>
        simp only at hstep
        split at hstep
        · cases hstep; exact hdrop rfl
        split at hstep
        · cases hstep
        next hsize =>
        cases hstep
        rw [Dict.get?_put] at hj
        split at hj
        · next hjk =>
          cases hj
          have hkv : v.name = k := by simpa using List.find?_some hfind
          refine .inr ⟨hjk ▸ hkv ▸ hlisted v (List.mem_of_find?_eq_some hfind), ?_, ?_⟩
          -- a size that passes is no less than the least one
          · have hmin : (0 : Int) < MIN_SIZE := by decide
            omega
          · have hmin : (0 : Int) < MIN_SIZE := by decide
            omega
        · exact hacc j s hj

/-- A layout that passes has no two monitors of different machines intersect, as they lie on the
desk with their edges rounded to the nearest pixel. -/
theorem firstOverlap_none {desk : List (String × List Rect)} (h : firstOverlap desk = none) :
    desk.Pairwise fun a b => ∀ x ∈ a.2, ∀ y ∈ b.2, intersects x y = false := by
  induction desk with
  | nil => exact List.Pairwise.nil
  | cons a rest ih =>
    obtain ⟨name, ma⟩ := a
    rw [firstOverlap] at h
    split at h
    · cases h
    next hfind =>
      refine List.Pairwise.cons ?_ (ih h)
      intro b hb x hx y hy
      have hnot := List.find?_eq_none.mp hfind b hb
      cases hxy : intersects x y with
      | false => rfl
      | true => exact absurd (List.any_eq_true.mpr ⟨x, hx, List.any_eq_true.mpr ⟨y, hy, hxy⟩⟩) hnot

end DeskState

end GeserDesk
