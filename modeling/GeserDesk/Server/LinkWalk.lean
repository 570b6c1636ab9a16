import GeserDesk.Server.Placement

/-!
# The walk along the links

The loop of `effectiveOrigins` that follows the links outwards, one queued screen a pass, with a
record of the link each screen is placed through. A pass takes a name off the queue and a name is
queued only as it is placed, so one pass for each listed screen empties the queue.
-/

namespace GeserDesk

/-- The state of the loop: who has an origin, whom to go on from, and for every screen placed on
the way the neighbour it was placed beside and that neighbour's edge. -/
structure LinkWalk where
  placed : Dict String Point
  queue : List String
  through : Dict String (String × Edge) := ∅

namespace LinkWalk

variable (order : List String) (layout : Layout) (sizeOf : String → Int × Int)

/-- `placeNeighbor`, with the record. -/
def visit (a : String) (w : LinkWalk) (edge : Edge) : LinkWalk :=
  match layout.neighbor a edge with
  | none => w
  | some b =>
    if (w.placed.get? b).isSome || !order.any (· == b) then w
    else
      let oa := (w.placed.get? a).getD ⟨0, 0⟩
      { placed := w.placed.put b (besideOrigin oa (sizeOf a) (sizeOf b) edge)
        queue := w.queue ++ [b]
        through := w.through.put b (a, edge) }

/-- One pass: the first name of the queue, all its edges. -/
def pass (w : LinkWalk) : LinkWalk :=
  match w.queue with
  | [] => w
  | a :: queue => Edge.all.foldl (visit order layout sizeOf a) { w with queue }

/-- The screens with an origin of their own, and this machine. -/
def start (local_ : String) (configured : Dict String Point) : LinkWalk :=
  let placed : Dict String Point :=
    (configured.entries.filter fun e => order.contains e.1).foldl (fun m e => m.put e.1 e.2) ∅
  let placed := if (placed.get? local_).isSome then placed else placed.put local_ ⟨0, 0⟩
  { placed, queue := order.filter fun n => (placed.get? n).isSome }

/-- The walk as `effectiveOrigins` makes it. -/
def walked (local_ : String) (configured : Dict String Point) : LinkWalk :=
  (pass order layout sizeOf)^[order.length] (start order local_ configured)

/-- The right end of the screens placed. -/
def rightEnd (placed : Dict String Point) : Int :=
  (order.filterMap fun n => (placed.get? n).map fun o => o.x + (sizeOf n).1).max?.getD 0

variable {order layout sizeOf} {a b n : String} {w : LinkWalk} {edge : Edge}
  {first : Dict String Point}

/-! ## The record changes nothing

The walk here also notes from where each machine was placed. Without the notes it is the one in
the code. -/

/-- Without its record a visit is `place_neighbor`. -/
theorem visit_erase (a : String) (w : LinkWalk) (edge : Edge) :
    ((visit order layout sizeOf a w edge).placed, (visit order layout sizeOf a w edge).queue)
      = placeNeighbor order layout sizeOf a (w.placed, w.queue) edge := by
  unfold visit placeNeighbor
  cases layout.neighbor a edge with
  | none => rfl
  | some b =>
    dsimp only
    split <;> rfl

/-- Without their record the visits to all four sides are the inner loop. -/
theorem visits_erase (a : String) (edges : List Edge) (w : LinkWalk) :
    ((edges.foldl (visit order layout sizeOf a) w).placed,
        (edges.foldl (visit order layout sizeOf a) w).queue)
      = edges.foldl (placeNeighbor order layout sizeOf a) (w.placed, w.queue) := by
  induction edges generalizing w with
  | nil => rfl
  | cons edge edges ih => rw [List.foldl_cons, List.foldl_cons, ih, visit_erase]

/-- A pass with nobody queued does nothing. -/
theorem pass_nil (h : w.queue = []) : pass order layout sizeOf w = w := by
  unfold pass
  rw [h]

/-- Any number of passes with nobody queued does nothing. -/
theorem passes_nil (h : w.queue = []) (k : Nat) : (pass order layout sizeOf)^[k] w = w :=
  Function.iterate_fixed (pass_nil h) k

/-- `follow_links` is passes, as many as it has fuel. -/
theorem followLinks_eq (fuel : Nat) (w : LinkWalk) :
    followLinks order layout sizeOf fuel (w.placed, w.queue)
      = ((pass order layout sizeOf)^[fuel] w).placed := by
  induction fuel generalizing w with
  | zero => rfl
  | succ fuel ih =>
    cases hq : w.queue with
    | nil => rw [passes_nil hq]; rfl
    | cons a queue =>
      rw [Function.iterate_succ_apply, ← ih, followLinks, ← visits_erase a Edge.all
        { w with queue }]
      simp only [pass, hq]

/-- **`effective_origins` is the walk, and then the row**, without the record. -/
theorem effectiveOrigins_eq (order : List String) (layout : Layout)
    (sizeOf : String → Int × Int) (local_ : String) (configured : Dict String Point) :
    effectiveOrigins order layout sizeOf local_ configured
      = placeRow order sizeOf (walked order layout sizeOf local_ configured).placed
          (rightEnd order sizeOf (walked order layout sizeOf local_ configured).placed) := by
  unfold walked
  rw [← followLinks_eq]
  rfl

/-! ## The loop ends

Every machine enters the queue once at most, so as many passes as there are machines empty it. -/

/-- The passes still to make, at most: the names queued and the ones not placed. -/
def ahead (order : List String) (w : LinkWalk) : Nat :=
  w.queue.length + order.countP fun n => (w.placed.get? n).isNone

/-- To place a listed screen leaves one fewer to place. -/
theorem countP_put_lt {placed : Dict String Point} (hb : b ∈ order)
    (hfree : (placed.get? b).isNone = true) (o : Point) :
    (order.countP fun n => ((placed.put b o).get? n).isNone)
      < order.countP fun n => (placed.get? n).isNone := by
  have hmono : ∀ names : List String, (names.countP fun n => ((placed.put b o).get? n).isNone)
      ≤ names.countP fun n => (placed.get? n).isNone := by
    refine fun names => List.countP_mono_left fun n _ hn => ?_
    rw [Dict.get?_put] at hn
    split at hn
    · cases hn
    · exact hn
  obtain ⟨before, after, rfl⟩ := List.append_of_mem hb
  have hbefore := hmono before
  have hafter := hmono after
  rw [List.countP_append, List.countP_append, List.countP_cons_of_neg (by simp),
    List.countP_cons_of_pos (p := fun n => (placed.get? n).isNone) hfree]
  omega

/-- Who is queued is listed and has an origin, who is placed was so at the start or is recorded,
and a screen placed through a link lies beside the neighbour at the other end. -/
structure Recorded (order : List String) (layout : Layout) (sizeOf : String → Int × Int)
    (first : Dict String Point) (w : LinkWalk) : Prop where
  queued : ∀ a ∈ w.queue, a ∈ order ∧ (w.placed.get? a).isSome
  known : ∀ n, (w.placed.get? n).isSome → (first.get? n).isSome ∨ (w.through.get? n).isSome
  beside : ∀ b a edge, w.through.get? b = some (a, edge) →
    layout.neighbor a edge = some b ∧ a ∈ order ∧ b ∈ order
      ∧ ∃ o, w.placed.get? a = some o
        ∧ w.placed.get? b = some (besideOrigin o (sizeOf a) (sizeOf b) edge)

/-- Nothing is recorded at the start. -/
theorem start_recorded (order : List String) (layout : Layout) (sizeOf : String → Int × Int)
    (local_ : String) (configured : Dict String Point) :
    Recorded order layout sizeOf (start order local_ configured).placed
      (start order local_ configured) where
  queued a ha := List.mem_filter.mp ha
  known n hn := .inl hn
  beside b a edge h := by
    rw [show (start order local_ configured).through = ∅ from rfl, Dict.get?_empty] at h
    cases h

/-- A visit records through which link it placed a machine, and places it only if it was not placed.
-/
theorem visit_recorded (h : Recorded order layout sizeOf first w) (ha : a ∈ order)
    (hplaced : (w.placed.get? a).isSome) (edge : Edge) :
    Recorded order layout sizeOf first (visit order layout sizeOf a w edge)
      ∧ ((visit order layout sizeOf a w edge).placed.get? a).isSome := by
  unfold visit
  -- nothing on this side, or a machine that is placed already
  cases hnb : layout.neighbor a edge with
  | none => exact ⟨h, hplaced⟩
  | some b =>
    dsimp only
    split
    · exact ⟨h, hplaced⟩
    · next hnew =>
      obtain ⟨oa, hoa⟩ := Option.isSome_iff_exists.mp hplaced
      -- the neighbour is new, so what was placed before stays
      have hb := listed_of_not_skipped hnew
      have hother : ∀ {x o}, w.placed.get? x = some o → x ≠ b := by
        rintro x o hx rfl
        exact hnew (by rw [hx]; rfl)
      have hkept : ∀ {x o} (p : Point), w.placed.get? x = some o →
          (w.placed.put b p).get? x = some o := by
        intro x o p hx
        rw [Dict.get?_put, if_neg (hother hx), hx]
      refine ⟨⟨?_, ?_, ?_⟩, Option.isSome_iff_exists.mpr ⟨oa, hkept _ hoa⟩⟩
      -- whoever waits in the queue is listed and placed
      · intro x hx
        rcases List.mem_append.mp hx with hx | hx
        · obtain ⟨hlisted, hsome⟩ := h.queued x hx
          obtain ⟨o, ho⟩ := Option.isSome_iff_exists.mp hsome
          exact ⟨hlisted, Option.isSome_iff_exists.mpr ⟨o, hkept _ ho⟩⟩
        · rw [List.mem_singleton.mp hx]
          exact ⟨hb, by rw [Dict.get?_put, if_pos rfl]; rfl⟩
      -- what is known is what was, and the new machine
      · intro x hx
        simp only [Dict.get?_put] at hx ⊢
        split
        · exact .inr rfl
        · next hxb => exact h.known x (by rwa [if_neg hxb] at hx)
      -- and stands beside the machine it was found from
      · intro y x e hy
        rw [Dict.get?_put] at hy
        split at hy
        · next hyb =>
          cases hy
          subst hyb
          refine ⟨hnb, ha, hb, oa, hkept _ hoa, ?_⟩
          rw [Dict.get?_put, if_pos rfl, hoa]
          rfl
        · obtain ⟨hlink, hx, hy', o, ho, hby⟩ := h.beside y x e hy
          exact ⟨hlink, hx, hy', o, hkept _ ho, hkept _ hby⟩

/-- The four visits of a pass record through which links they placed machines. -/
theorem visits_recorded (edges : List Edge) (h : Recorded order layout sizeOf first w)
    (ha : a ∈ order) (hplaced : (w.placed.get? a).isSome) :
    Recorded order layout sizeOf first (edges.foldl (visit order layout sizeOf a) w) := by
  induction edges generalizing w with
  | nil => exact h
  | cons edge edges ih =>
    obtain ⟨h', hplaced'⟩ := visit_recorded h ha hplaced edge
    exact ih h' hplaced'

/-- A pass records through which links it placed machines. -/
theorem pass_recorded (h : Recorded order layout sizeOf first w) :
    Recorded order layout sizeOf first (pass order layout sizeOf w) := by
  unfold pass
  cases hq : w.queue with
  | nil => exact h
  | cons a queue =>
    obtain ⟨ha, hplaced⟩ := h.queued a (by rw [hq]; exact List.mem_cons_self)
    refine visits_recorded Edge.all ⟨fun x hx => ?_, h.known, h.beside⟩ ha hplaced
    exact h.queued x (by rw [hq]; exact List.mem_cons_of_mem _ hx)

/-- The whole walk records through which links it placed machines. -/
theorem walked_recorded (order : List String) (layout : Layout) (sizeOf : String → Int × Int)
    (local_ : String) (configured : Dict String Point) :
    Recorded order layout sizeOf (start order local_ configured).placed
      (walked order layout sizeOf local_ configured) := by
  unfold walked
  generalize order.length = fuel
  induction fuel with
  | zero => exact start_recorded order layout sizeOf local_ configured
  | succ fuel ih =>
    rw [Function.iterate_succ_apply']
    exact pass_recorded ih

/-! ## A link from the first screen queued is followed

The first in the queue is visited first, so its links are those that count. -/

variable (order layout sizeOf) in
/-- A record made is not changed by another visit. -/
theorem visit_through (h : w.through.get? b = some (n, edge)) (hb : (w.placed.get? b).isSome)
    (a : String) (e : Edge) :
    (visit order layout sizeOf a w e).through.get? b = some (n, edge)
      ∧ ((visit order layout sizeOf a w e).placed.get? b).isSome := by
  unfold visit
  cases layout.neighbor a e with
  | none => exact ⟨h, hb⟩
  | some c =>
    dsimp only
    split
    · exact ⟨h, hb⟩
    · next hnew =>
      have hne : b ≠ c := by
        rintro rfl
        exact hnew (by rw [hb]; rfl)
      simp only [Dict.get?_put, if_neg hne]
      exact ⟨h, hb⟩

variable (order layout sizeOf) in
/-- A record made is not changed by the visits of a pass. -/
theorem visits_through (edges : List Edge) (h : w.through.get? b = some (n, edge))
    (hb : (w.placed.get? b).isSome) (a : String) :
    (edges.foldl (visit order layout sizeOf a) w).through.get? b = some (n, edge)
      ∧ ((edges.foldl (visit order layout sizeOf a) w).placed.get? b).isSome := by
  induction edges generalizing w with
  | nil => exact ⟨h, hb⟩
  | cons e edges ih =>
    obtain ⟨h', hb'⟩ := visit_through order layout sizeOf h hb a e
    exact ih h' hb'

/-- A record made is not changed by any number of passes. -/
theorem passes_through (fuel : Nat) (h : w.through.get? b = some (n, edge))
    (hb : (w.placed.get? b).isSome) :
    ((pass order layout sizeOf)^[fuel] w).through.get? b = some (n, edge) := by
  induction fuel generalizing w with
  | zero => exact h
  | succ fuel ih =>
    rw [Function.iterate_succ_apply]
    cases hq : w.queue with
    | nil => rw [pass_nil hq]; exact ih h hb
    | cons a queue =>
      obtain ⟨h', hb'⟩ := visits_through order layout sizeOf
        (w := { w with queue }) Edge.all h hb a
      simp only [pass, hq]
      exact ih h' hb'

variable (order sizeOf) in
/-- A screen still free is placed through the link that leads to it. -/
theorem visits_follow (edges : List Edge) (hin : edge ∈ edges) (hb : b ∈ order)
    (hlink : ∀ e, layout.neighbor a e = if e = edge then some b else none)
    (hfree : w.placed.get? b = none) :
    (edges.foldl (visit order layout sizeOf a) w).through.get? b = some (a, edge)
      ∧ ((edges.foldl (visit order layout sizeOf a) w).placed.get? b).isSome := by
  induction edges generalizing w with
  | nil => cases hin
  | cons e edges ih =>
    rw [List.foldl_cons]
    by_cases he : e = edge
    · subst he
      have hlisted : (order.any fun x => x == b) = true :=
        List.any_eq_true.mpr ⟨b, hb, beq_self_eq_true b⟩
      refine visits_through order layout sizeOf edges ?_ ?_ a
      · simp [visit, hlink, hfree, hlisted]
      · simp [visit, hlink, hfree, hlisted]
    · have hsame : visit order layout sizeOf a w e = w := by
        unfold visit
        rw [hlink, if_neg he]
      rw [hsame]
      exact ih ((List.mem_cons.mp hin).resolve_left (Ne.symm he)) hfree

end LinkWalk

end GeserDesk
