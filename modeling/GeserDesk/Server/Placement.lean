import GeserDesk.Server.Desk

/-!
# Where a screen is placed

What `effectiveOrigins` gives a screen, and what it asks for: a screen with an origin of its own
keeps it whatever the sizes are, this machine has one always, and the sizes asked for are the
ones of listed screens.
-/

namespace GeserDesk

variable {order : List String} {layout : Layout} {sizeOf sizeOf' : String → Int × Int}
  {local_ n : String} {configured : Dict String Point} {o : Point}

/-! ## A place given is kept

The passes only add places. -/

/-- A neighbour placed moves nobody. -/
theorem placeNeighbor_keeps {a : String} {acc : Dict String Point × List String} {edge : Edge}
    (h : acc.1.get? n = some o) :
    (placeNeighbor order layout sizeOf a acc edge).1.get? n = some o := by
  obtain ⟨placed, queue⟩ := acc
  unfold placeNeighbor
  dsimp only
  split
  · exact h
  next b _ =>
    split
    · exact h
    next hfree =>
      have hne : n ≠ b := by
        rintro rfl
        exact hfree (by rw [show placed.get? n = some o from h]; rfl)
      rw [Dict.get?_put, if_neg hne]
      exact h

/-- The neighbours on all four sides, placed, move nobody. -/
theorem placeNeighbors_keeps {a : String} (edges : List Edge)
    (acc : Dict String Point × List String) (h : acc.1.get? n = some o) :
    (edges.foldl (placeNeighbor order layout sizeOf a) acc).1.get? n = some o := by
  induction edges generalizing acc with
  | nil => exact h
  | cons edge edges ih => exact ih _ (placeNeighbor_keeps h)

/-- The walk along the links moves nobody who is placed. -/
theorem followLinks_keeps (fuel : Nat) {placed : Dict String Point} {queue : List String}
    (h : placed.get? n = some o) :
    (followLinks order layout sizeOf fuel (placed, queue)).get? n = some o := by
  induction fuel generalizing placed queue with
  | zero => exact h
  | succ fuel ih =>
    cases queue with
    | nil => exact h
    | cons a queue => exact ih (placeNeighbors_keeps Edge.all (placed, queue) h)

/-- The row moves nobody who is placed. -/
theorem placeRow_keeps {placed : Dict String Point} {right : Int} (h : placed.get? n = some o) :
    (placeRow order sizeOf placed right).get? n = some o := by
  unfold placeRow
  suffices hfold : ∀ (names : List String) (acc : Dict String Point × Int),
      acc.1.get? n = some o → (names.foldl (fun (acc : Dict String Point × Int) name =>
        if (acc.1.get? name).isSome then acc
        else (acc.1.put name ⟨acc.2, 0⟩, acc.2 + (sizeOf name).1)) acc).1.get? n = some o from
    hfold order (placed, right) h
  intro names
  induction names with
  | nil => exact fun _ h => h
  | cons name names ih =>
    intro acc h
    refine ih _ ?_
    dsimp only
    split
    · exact h
    next hfree =>
      have hne : n ≠ name := by
        rintro rfl
        exact hfree (by rw [h]; rfl)
      rw [Dict.get?_put, if_neg hne]
      exact h

/-! ## The places to start from

Configured machines stand where the configuration says, and the local one in the corner unless it
says otherwise. -/

/-- The screens placed at first: the listed ones with an origin of their own. -/
theorem get?_configured (order : List String) (configured : Dict String Point) (n : String) :
    ((configured.entries.filter fun e => order.contains e.1).foldl
      (fun (m : Dict String Point) e => m.put e.1 e.2) ∅).get? n
    = if n ∈ order then configured.get? n else none := by
  suffices hfold : ∀ (L : List (Sigma fun _ : String => Point)) (acc : Dict String Point),
      (∀ e ∈ L, configured.get? e.1 = some e.2) →
      (L.foldl (fun m e => m.put e.1 e.2) acc).get? n
        = if n ∈ L.map (·.1) then configured.get? n else acc.get? n by
    rw [hfold _ _ fun e he => (Dict.mem_entries_iff _ _ _).mp (List.mem_filter.mp he).1]
    by_cases hn : n ∈ order
    · rw [if_pos hn]
      cases hc : configured.get? n with
      | none => rw [Dict.get?_empty, ite_self]
      | some p =>
        have hmem : n ∈ (configured.entries.filter fun e => order.contains e.1).map (·.1) :=
          List.mem_map.mpr ⟨⟨n, p⟩, List.mem_filter.mpr
            ⟨(Dict.mem_entries_iff _ _ _).mpr hc, List.contains_iff_mem.mpr hn⟩, rfl⟩
        rw [if_pos hmem]
    · have hmem : n ∉ (configured.entries.filter fun e => order.contains e.1).map (·.1) := by
        intro hmem
        obtain ⟨e, he, rfl⟩ := List.mem_map.mp hmem
        exact hn (List.contains_iff_mem.mp (List.mem_filter.mp he).2)
      rw [if_neg hn, if_neg hmem, Dict.get?_empty]
  intro L
  induction L with
  | nil => exact fun _ _ => rfl
  | cons e L ih =>
    intro acc hL
    have hcons : n ∈ (e :: L).map (·.1) ↔ n = e.1 ∨ n ∈ L.map (·.1) := by
      rw [List.map_cons, List.mem_cons]
    rw [List.foldl_cons, ih _ fun e he => hL e (List.mem_cons_of_mem _ he)]
    by_cases hn : n ∈ L.map (·.1)
    · rw [if_pos hn, if_pos (hcons.mpr (.inr hn))]
    · by_cases hne : n = e.1
      · rw [if_neg hn, if_pos (hcons.mpr (.inl hne)), Dict.get?_put, if_pos hne, hne,
          hL e List.mem_cons_self]
      · rw [if_neg hn, if_neg fun h => (hcons.mp h).elim hne hn, Dict.get?_put, if_neg hne]

/-- A listed screen with an origin of its own is there. -/
theorem effectiveOrigins_configured (hn : n ∈ order) (h : configured.get? n = some o) :
    (effectiveOrigins order layout sizeOf local_ configured).get? n = some o := by
  unfold effectiveOrigins
  dsimp only
  refine placeRow_keeps (followLinks_keeps _ ?_)
  have hstart := get?_configured order configured n
  rw [if_pos hn, h] at hstart
  split
  · exact hstart
  next hlocal =>
    have hne : n ≠ local_ := by
      rintro rfl
      exact hlocal (by rw [hstart]; rfl)
    rw [Dict.get?_put, if_neg hne, hstart]

/-- This machine is at its own origin, else at the desk's. -/
theorem effectiveOrigins_local (hn : local_ ∈ order) :
    (effectiveOrigins order layout sizeOf local_ configured).get? local_
      = some ((configured.get? local_).getD ⟨0, 0⟩) := by
  cases h : configured.get? local_ with
  | some o => exact effectiveOrigins_configured hn h
  | none =>
    unfold effectiveOrigins
    dsimp only
    refine placeRow_keeps (followLinks_keeps _ ?_)
    have hstart := get?_configured order configured local_
    rw [if_pos hn, h] at hstart
    rw [hstart]
    exact (Dict.get?_put _ _ _ _).trans (if_pos rfl)

/-! ## Only the sizes of listed screens matter

Two maps of sizes that agree on the layout's screens place them alike. -/

/-- A neighbour that is not skipped is listed. -/
theorem listed_of_not_skipped {b : String} {skip : Bool}
    (h : ¬ (skip || !order.any (· == b)) = true) : b ∈ order := by
  rw [Bool.or_eq_true, not_or, Bool.not_eq_true', Bool.not_eq_false] at h
  obtain ⟨x, hx, hxb⟩ := List.any_eq_true.mp h.2
  exact beq_iff_eq.mp hxb ▸ hx

/-- What is queued is listed. -/
theorem placeNeighbor_queue (sizeOf : String → Int × Int) (a : String) (edge : Edge)
    {acc : Dict String Point × List String} (h : ∀ x ∈ acc.2, x ∈ order) :
    ∀ x ∈ (placeNeighbor order layout sizeOf a acc edge).2, x ∈ order := by
  obtain ⟨placed, queue⟩ := acc
  unfold placeNeighbor
  dsimp only
  split
  · exact h
  next b _ =>
    split
    · exact h
    next hlisted =>
      intro x hx
      rcases List.mem_append.mp hx with hx | hx
      · exact h x hx
      · rw [List.mem_singleton.mp hx]
        exact listed_of_not_skipped hlisted

section Congr

variable (hsize : ∀ n ∈ order, sizeOf n = sizeOf' n)
include hsize

/-- Where sizes agree on the listed machines, a neighbour is placed alike. -/
theorem placeNeighbor_congr {a : String} (ha : a ∈ order)
    (acc : Dict String Point × List String) (edge : Edge) :
    placeNeighbor order layout sizeOf a acc edge = placeNeighbor order layout sizeOf' a acc edge := by
  obtain ⟨placed, queue⟩ := acc
  unfold placeNeighbor
  dsimp only
  split
  · rfl
  next b _ =>
    split
    · rfl
    next hlisted =>
      have hb : b ∈ order := listed_of_not_skipped hlisted
      rw [hsize a ha, hsize b hb]

variable (layout) in
/-- Where sizes agree on the listed machines, all four neighbours are placed alike. -/
theorem placeNeighbors_congr {a : String} (ha : a ∈ order) (edges : List Edge)
    (acc : Dict String Point × List String) (h : ∀ x ∈ acc.2, x ∈ order) :
    edges.foldl (placeNeighbor order layout sizeOf a) acc
      = edges.foldl (placeNeighbor order layout sizeOf' a) acc
    ∧ ∀ x ∈ (edges.foldl (placeNeighbor order layout sizeOf a) acc).2, x ∈ order := by
  induction edges generalizing acc with
  | nil => exact ⟨rfl, h⟩
  | cons edge edges ih =>
    obtain ⟨heq, hqueue⟩ := ih _ (placeNeighbor_queue sizeOf a edge h)
    refine ⟨?_, hqueue⟩
    rw [List.foldl_cons, List.foldl_cons, heq, placeNeighbor_congr hsize ha]

/-- Where sizes agree on the listed machines, the links are followed alike. -/
theorem followLinks_congr (fuel : Nat) (placed : Dict String Point) (queue : List String)
    (h : ∀ x ∈ queue, x ∈ order) :
    followLinks order layout sizeOf fuel (placed, queue)
      = followLinks order layout sizeOf' fuel (placed, queue) := by
  induction fuel generalizing placed queue with
  | zero => rfl
  | succ fuel ih =>
    cases queue with
    | nil => rfl
    | cons a queue =>
      obtain ⟨heq, hqueue⟩ := placeNeighbors_congr layout hsize
        (h a List.mem_cons_self) Edge.all (placed, queue)
        (fun x hx => h x (List.mem_cons_of_mem _ hx))
      rw [followLinks, followLinks, ← heq]
      exact ih _ _ hqueue

/-- Where sizes agree on the listed machines, the row is laid alike. -/
theorem placeRow_congr (placed : Dict String Point) (right : Int) :
    placeRow order sizeOf placed right = placeRow order sizeOf' placed right := by
  unfold placeRow
  suffices hfold : ∀ (names : List String), (∀ n ∈ names, n ∈ order) →
      ∀ acc : Dict String Point × Int,
      names.foldl (fun (acc : Dict String Point × Int) name =>
        if (acc.1.get? name).isSome then acc
        else (acc.1.put name ⟨acc.2, 0⟩, acc.2 + (sizeOf name).1)) acc
      = names.foldl (fun (acc : Dict String Point × Int) name =>
        if (acc.1.get? name).isSome then acc
        else (acc.1.put name ⟨acc.2, 0⟩, acc.2 + (sizeOf' name).1)) acc by
    rw [hfold order (fun _ h => h)]
  intro names
  induction names with
  | nil => exact fun _ _ => rfl
  | cons name names ih =>
    intro hnames acc
    rw [List.foldl_cons, List.foldl_cons, hsize name (hnames name List.mem_cons_self)]
    exact ih (fun n hn => hnames n (List.mem_cons_of_mem _ hn)) _

/-- Sizes that agree on the listed screens place every screen alike. -/
theorem effectiveOrigins_congr :
    effectiveOrigins order layout sizeOf local_ configured
      = effectiveOrigins order layout sizeOf' local_ configured := by
  unfold effectiveOrigins
  dsimp only
  rw [followLinks_congr hsize _ _ _ (fun x hx => (List.mem_filter.mp hx).1),
    placeRow_congr hsize]
  congr 3
  refine List.filterMap_congr fun n hn => ?_
  rw [hsize n hn]

end Congr

end GeserDesk
