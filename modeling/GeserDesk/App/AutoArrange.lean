import GeserDesk.App.EditorAgrees

/-!
# The automatic arrangement

`autoArrange` of `geometry.ts`, behind the one button that arranges everything: the server first,
then the others, side by side, each centred on the height of the server.

* **`autoArrange_row`**: every machine begins where the one before it ends, so nothing overlaps.
* **`autoArrange_accepted`**: `DeskState::validate` takes what is then saved, so long as it is in
  range.
-/

namespace GeserDesk

namespace Editor

/-- Stretches laid end to end from `x` on, each with where it begins. -/
def offsets {α : Type} (width : α → ℚ) : ℚ → List α → List (ℚ × α)
  | _, [] => []
  | x, a :: rest => (x, a) :: offsets width (x + width a) rest

/-- A machine whose box begins at `x`, centred on the height `base`. -/
def arranged (base x : ℚ) (u : Rect) : Placement :=
  { x := x - u.x, y := mathRound ((base - u.h) / 2) - u.y }

/-- Server first, then the others, side by side; vertically centred on the server. A screen comes
with whether it is the server's own. -/
def autoArrange (screens : List (Placed × Bool)) : Option (Dict String Placement) := do
  let order := screens.insertionSort fun a b => b.2 ≤ a.2
  let boxes ← order.mapM fun s =>
    (union (deskRects s.1.monitors { x := 0, y := 0 })).map fun u => (s.1.name, u)
  let base := (boxes.head?.map fun b => b.2.h).getD 0
  some ((offsets (fun b => b.2.w) 0 boxes).foldl
    (fun out p => out.put p.2.1 (arranged base p.1 p.2.2)) ∅)

/-- What is drafted for a machine. -/
def draftOf (out : Dict String Placement) (name : String) : Placement :=
  (out.get? name).getD { x := 0, y := 0 }

/-- The box of a machine on the desk. -/
def boxOf (draft : String → Placement) (s : Placed) : Option Rect :=
  union (deskRects s.monitors (draft s.name))

/-! ## Stretches end to end

Machines are laid in a row by adding up widths. The offsets rise, and each stretch ends where the
next begins. -/

section

variable {α β : Type} (width : α → ℚ)

/-- Offsets follow the widths alone. -/
theorem offsets_map (g : β → α) (x : ℚ) (l : List β) :
    offsets width x (l.map g) = (offsets (width ∘ g) x l).map fun p => (p.1, g p.2) := by
  induction l generalizing x with
  | nil => rfl
  | cons b l ih =>
    rw [List.map_cons, offsets, ih]
    rfl

/-- A list is laid out whole and in its order. -/
theorem offsets_snd (x : ℚ) (l : List α) : (offsets width x l).map (·.2) = l := by
  induction l generalizing x with
  | nil => rfl
  | cons a l ih => rw [offsets, List.map_cons, ih]

/-- Each machine begins where the one before it ends. -/
theorem offsets_isChain (x : ℚ) (l : List α) :
    (offsets width x l).IsChain fun p q => p.1 + width p.2 = q.1 := by
  induction l generalizing x with
  | nil => exact .nil
  | cons a l ih =>
    cases l with
    | nil => exact .singleton _
    | cons b l => exact .cons_cons rfl (ih _)

/-- No machine begins before the first. -/
theorem offsets_ge {x : ℚ} {l : List α} (hw : ∀ a ∈ l, 0 ≤ width a) :
    ∀ p ∈ offsets width x l, x ≤ p.1 := by
  induction l generalizing x with
  | nil => exact fun p hp => absurd hp List.not_mem_nil
  | cons a l ih =>
    intro p hp
    rcases List.mem_cons.mp hp with rfl | hp
    · exact le_refl x
    · have hrest := ih (fun b hb => hw b (List.mem_cons_of_mem a hb)) p hp
      have ha := hw a List.mem_cons_self
      linarith

/-- No machine begins before the end of one further left. -/
theorem offsets_pairwise {x : ℚ} {l : List α} (hw : ∀ a ∈ l, 0 ≤ width a) :
    (offsets width x l).Pairwise fun p q => p.1 + width p.2 ≤ q.1 := by
  induction l generalizing x with
  | nil => exact .nil
  | cons a l ih =>
    have hrest : ∀ b ∈ l, 0 ≤ width b := fun b hb => hw b (List.mem_cons_of_mem a hb)
    exact .cons (offsets_ge width hrest) (ih hrest)

/-- What holds of whole widths and a whole start holds of every offset. -/
theorem offsets_whole {x : ℚ} {l : List α} (hx : ∃ z : Int, x = z)
    (hw : ∀ a ∈ l, ∃ z : Int, width a = z) : ∀ p ∈ offsets width x l, ∃ z : Int, p.1 = z := by
  induction l generalizing x with
  | nil => exact fun p hp => absurd hp List.not_mem_nil
  | cons a l ih =>
    intro p hp
    rcases List.mem_cons.mp hp with rfl | hp
    · exact hx
    · obtain ⟨z, hz⟩ := hx
      obtain ⟨w, hwa⟩ := hw a List.mem_cons_self
      refine ih ⟨z + w, ?_⟩ (fun b hb => hw b (List.mem_cons_of_mem a hb)) p hp
      rw [hz, hwa, Int.cast_add]

end

/-- What a table has after entries of different keys were put into it. -/
theorem get?_foldl_put {α V : Type} (key : α → String) (val : α → V) {l : List α}
    (h : (l.map key).Nodup) (m : Dict String V) {a : α} (ha : a ∈ l) :
    (l.foldl (fun m a => m.put (key a) (val a)) m).get? (key a) = some (val a) := by
  induction l using List.reverseRecOn with
  | nil => cases ha
  | append_singleton l last ih =>
    rw [List.map_append, List.map_singleton, List.nodup_append] at h
    obtain ⟨hnodup, -, hnew⟩ := h
    rw [List.foldl_append, List.foldl_cons, List.foldl_nil, Dict.get?_put]
    rcases List.mem_append.mp ha with ha | ha
    · rw [if_neg (hnew _ (List.mem_map_of_mem ha) _ List.mem_cons_self)]
      exact ih hnodup ha
    · rw [List.mem_singleton.mp ha, if_pos rfl]

/-- A list mapped without a failure is mapped. -/
theorem mapM_eq_some {α β : Type} {f : α → Option β} {g : α → β} {l : List α}
    (h : ∀ a ∈ l, f a = some (g a)) : l.mapM f = some (l.map g) := by
  induction l with
  | nil => rfl
  | cons a l ih =>
    rw [List.mapM_cons, h a List.mem_cons_self,
      ih fun b hb => h b (List.mem_cons_of_mem a hb)]
    rfl

/-! ## One machine

A machine with whole monitors has a box of whole numbers, which the row places and centres up to
half a pixel. -/

/-- Monitors of whole numbers, as every machine's are. -/
def WholeMonitors (s : Placed) : Prop :=
  ∃ ms, s.monitors = ms.map ofRect ∧ GeserDesk.RealMonitors ms

/-- The real box of a machine's monitors. -/
def realBox (s : Placed) : Rect := (union s.monitors).getD ⟨0, 0, 0, 0⟩

/-- A machine of whole monitors has a box, which unstretched is drawn as it is. -/
theorem WholeMonitors.box {s : Placed} (h : WholeMonitors s) :
    ∃ n : GeserDesk.Rect, n.Real ∧ realBox s = ofRect n
      ∧ ∀ o : Placement, o.w = none → o.h = none →
        union (deskRects s.monitors o) = some ⟨o.x + n.x, o.y + n.y, n.w, n.h⟩ := by
  obtain ⟨ms, hms, hreal⟩ := h
  obtain ⟨n, hn⟩ := exists_unionAll hreal.1
  have hunion : union s.monitors = some (ofRect n) := by rw [hms, union_of_unionAll hn]
  refine ⟨n, unionAll_real hreal.2 hn, by rw [realBox, hunion]; rfl, fun o hw hh => ?_⟩
  have hfactor : ∀ real : ℚ, factor none real = 1 := fun _ => rfl
  rw [union_deskRects o hunion (by rw [hw, hfactor]; exact one_pos)
    (by rw [hh, hfactor]; exact one_pos), hw, hh, hfactor, hfactor, mul_one, mul_one]
  have hround : ∀ z : Int, mathRound (z : ℚ) = z := mathRound_int
  simp only [ofRect, hround]

/-- `Math.round` is off by half at most. -/
theorem abs_mathRound_sub_le (q : ℚ) : |mathRound q - q| ≤ 1 / 2 := by
  have hle := Int.floor_le (q + 1 / 2)
  have hlt := Int.lt_floor_add_one (q + 1 / 2)
  rw [mathRound, abs_le]
  constructor <;> linarith

/-- Where an arranged machine lies: from its place on, as large as it is, centred. -/
theorem WholeMonitors.arranged_box {s : Placed} (h : WholeMonitors s) (base x : ℚ) :
    ∃ u, union (deskRects s.monitors (arranged base x (realBox s))) = some u
      ∧ u.x = x ∧ u.w = (realBox s).w ∧ u.h = (realBox s).h
      ∧ u.y = mathRound ((base - u.h) / 2) := by
  obtain ⟨n, hn, hbox, hplaced⟩ := h.box
  rw [hbox]
  refine ⟨_, hplaced (arranged base x (ofRect n)) rfl rfl, ?_, rfl, rfl, ?_⟩
  · exact sub_add_cancel x _
  · exact sub_add_cancel _ _

/-! ## The arrangement

The machines stand in one row, the local one first, none over another; all drafts are whole
numbers. -/

/-- What the arrangement drafts: each machine at its offset, the server's own first. -/
theorem autoArrange_eq {screens : List (Placed × Bool)} (hw : ∀ s ∈ screens, WholeMonitors s.1)
    (hone : (screens.map fun s => s.1.name).Nodup) :
    ∃ out order base, autoArrange screens = some out ∧ order.Perm screens
      ∧ order.Pairwise (fun s t => t.2 ≤ s.2)
      ∧ (∀ s, order.head? = some s → base = (realBox s.1).h)
      ∧ ∀ p ∈ offsets (fun s : Placed × Bool => (realBox s.1).w) 0 order,
        draftOf out p.2.1.name = arranged base p.1 (realBox p.2.1) := by
  -- sorting keeps the machines, the local one first
  have hperm := List.perm_insertionSort (fun a b : Placed × Bool => b.2 ≤ a.2) screens
  have hsorted : (screens.insertionSort fun a b => b.2 ≤ a.2).Pairwise
      fun s t : Placed × Bool => t.2 ≤ s.2 := by
    have htotal : Std.Total (fun a b : Placed × Bool => b.2 ≤ a.2) := ⟨fun a b => le_total _ _⟩
    have htrans : IsTrans (Placed × Bool) (fun a b => b.2 ≤ a.2) := ⟨fun a b c h h' => h'.trans h⟩
    exact List.pairwise_insertionSort _ screens
  generalize horder : (screens.insertionSort fun a b => b.2 ≤ a.2) = order at hperm hsorted
  -- every machine has a box, as it has monitors
  have hboxes : order.mapM (fun s : Placed × Bool =>
      (union (deskRects s.1.monitors { x := 0, y := 0 })).map fun u => (s.1.name, u))
      = some (order.map fun s => (s.1.name, realBox s.1)) := by
    refine mapM_eq_some fun s hs => ?_
    obtain ⟨n, -, hbox, hplaced⟩ := (hw s (hperm.mem_iff.mp hs)).box
    rw [hplaced _ rfl rfl, hbox]
    simp [ofRect]
  -- the row's height is that of the first box
  generalize hbase : ((order.map fun s : Placed × Bool => (s.1.name, realBox s.1)).head?.map
    fun b => b.2.h).getD 0 = base
  have hout : autoArrange screens = some ((offsets (fun b : String × Rect => b.2.w) 0
      (order.map fun s : Placed × Bool => (s.1.name, realBox s.1))).foldl
        (fun out p => out.put p.2.1 (arranged base p.1 p.2.2)) ∅) := by
    rw [autoArrange, horder, hboxes, ← hbase]
    rfl
  -- the drafts are those of the row, as no name comes twice
  refine ⟨_, order, base, hout, hperm, hsorted, fun s hs => ?_, fun p hp => ?_⟩
  · rw [← hbase, List.head?_map, hs]
    rfl
  · rw [offsets_map, List.foldl_map, draftOf]
    have hkeys : ((offsets ((fun b : String × Rect => b.2.w)
        ∘ fun s : Placed × Bool => (s.1.name, realBox s.1)) 0 order).map
          fun q => q.2.1.name).Nodup := by
      have hnames := (hperm.map fun s => s.1.name).nodup_iff.mpr hone
      rw [← offsets_snd _ 0 order, List.map_map] at hnames
      exact hnames
    have hget := get?_foldl_put (fun q : ℚ × Placed × Bool => q.2.1.name)
      (fun q => arranged base q.1 (realBox q.2.1)) hkeys ∅ hp
    rw [hget]
    rfl

/-- Two machines side by side share nothing. -/
theorem hit_beside {as bs : List Rect} {u v : Rect} (hu : union as = some u) (hv : union bs = some v)
    (h : u.x + u.w ≤ v.x) : ∀ a ∈ as, ∀ b ∈ bs, hit a b = false ∧ hit b a = false := by
  intro a ha b hb
  have ha' : a.x + a.w ≤ u.x + u.w := (isUnion_of_union hu).right.2 ⟨a, ha, rfl⟩
  have hb' : v.x ≤ b.x := (isUnion_of_union hv).left.2 ⟨b, hb, rfl⟩
  have hle : ¬ b.x < a.x + a.w := not_lt.mpr (ha'.trans (h.trans hb'))
  simp [hit, hle]

/-- Machines of which no two share anything make no pair. -/
theorem hitPairs_eq_nil {all : List (String × List Rect)}
    (h : all.Pairwise fun s t => ∀ a ∈ s.2, ∀ b ∈ t.2, hit a b = false) : hitPairs all = [] := by
  induction h with
  | nil => rfl
  | @cons s all hs _ ih =>
    rw [hitPairs, ih, List.append_nil, List.map_eq_nil_iff, List.filter_eq_nil_iff]
    intro t ht
    simp only [List.any_eq_true, not_exists, not_and, Bool.not_eq_true]
    exact fun a ha b hb => hs t ht a ha b hb

/-- Machines side by side: the server's own first, each beginning where the one before it ends, from
the desk's origin on, and as near the middle of the first one's height as whole pixels allow. -/
structure InRow (screens : List (Placed × Bool)) (draft : String → Placement) : Prop where
  apart : overlapping (screens.map (·.1)) draft = []
  row : ∃ order : List (Placed × Bool), order.Perm screens
    ∧ order.Pairwise (fun s t => t.2 ≤ s.2)
    ∧ order.IsChain (fun s t => ∃ u v, boxOf draft s.1 = some u ∧ boxOf draft t.1 = some v
      ∧ u.x + u.w = v.x)
    ∧ ∀ first, order.head? = some first → ∃ u, boxOf draft first.1 = some u ∧ u.x = 0 ∧ u.y = 0
      ∧ ∀ s ∈ order, ∃ v, boxOf draft s.1 = some v ∧ |(v.y + v.h / 2) - u.h / 2| ≤ 1 / 2

/-- Nothing but a place is drafted, and that of whole numbers. -/
theorem autoArrange_whole {screens : List (Placed × Bool)} (hw : ∀ s ∈ screens, WholeMonitors s.1)
    (hone : (screens.map fun s => s.1.name).Nodup) {out : Dict String Placement}
    (hout : autoArrange screens = some out) : ∀ s ∈ screens, ∃ p : Point,
      draftOf out s.1.name = { x := p.x, y := p.y } := by
  obtain ⟨out', order, base, hout', hperm, -, hbase, hdraft⟩ := autoArrange_eq hw hone
  rw [hout] at hout'
  obtain rfl := Option.some.inj hout'
  have hlaid := offsets_snd (fun s : Placed × Bool => (realBox s.1).w) 0 order
  have hwhole : ∀ s ∈ order, WholeMonitors s.1 := fun s hs => hw s (hperm.mem_iff.mp hs)
  have hoffset := offsets_whole (fun s : Placed × Bool => (realBox s.1).w) (x := 0) (l := order)
    ⟨0, by rw [Int.cast_zero]⟩ fun s hs => by
      obtain ⟨n, -, hbox, -⟩ := (hwhole s hs).box
      exact ⟨n.w, by rw [hbox]; rfl⟩
  intro s hs
  have hmem := hperm.mem_iff.mpr hs
  rw [← hlaid] at hmem
  obtain ⟨q, hq, rfl⟩ := List.mem_map.mp hmem
  obtain ⟨n, -, hbox, -⟩ := (hw q.2 hs).box
  obtain ⟨z, hz⟩ := hoffset q hq
  refine ⟨⟨z - n.x, ⌊(base - n.h) / 2 + 1 / 2⌋ - n.y⟩, ?_⟩
  rw [hdraft q hq, arranged, hbox, hz]
  simp [ofRect, mathRound]

/-- **The machines are arranged in a row**, and so none overlaps another. -/
theorem autoArrange_row {screens : List (Placed × Bool)} (hw : ∀ s ∈ screens, WholeMonitors s.1)
    (hone : (screens.map fun s => s.1.name).Nodup) :
    ∃ out, autoArrange screens = some out ∧ InRow screens (draftOf out) := by
  obtain ⟨out, order, base, hout, hperm, hfirst, hbase, hdraft⟩ := autoArrange_eq hw hone
  have hlaid := offsets_snd (fun s : Placed × Bool => (realBox s.1).w) 0 order
  have hwhole : ∀ s ∈ order, WholeMonitors s.1 := fun s hs => hw s (hperm.mem_iff.mp hs)
  have hwidth : ∀ s ∈ order, 0 ≤ (realBox s.1).w := by
    intro s hs
    obtain ⟨n, hn, hbox, -⟩ := (hwhole s hs).box
    rw [hbox]
    exact Int.cast_nonneg (le_of_lt hn.1)
  have hchain := offsets_isChain (fun s : Placed × Bool => (realBox s.1).w) 0 order
  have hpair := offsets_pairwise (fun s : Placed × Bool => (realBox s.1).w) (x := 0) hwidth
  generalize hl : offsets (fun s : Placed × Bool => (realBox s.1).w) 0 order = laid
    at hlaid hdraft hchain hpair
  -- where each machine's box is
  have hbox : ∀ p ∈ laid, ∃ u, boxOf (draftOf out) p.2.1 = some u ∧ u.x = p.1
      ∧ u.w = (realBox p.2.1).w ∧ u.h = (realBox p.2.1).h ∧ u.y = mathRound ((base - u.h) / 2) := by
    intro p hp
    have hs : p.2 ∈ order := hlaid ▸ List.mem_map_of_mem hp
    obtain ⟨u, hu, hx, huw, huh, hy⟩ := (hwhole p.2 hs).arranged_box base p.1
    exact ⟨u, by rw [boxOf, hdraft p hp]; exact hu, hx, huw, huh, hy⟩
  have hbeside : laid.Pairwise fun p q => ∀ a ∈ deskRects p.2.1.monitors (draftOf out p.2.1.name),
      ∀ b ∈ deskRects q.2.1.monitors (draftOf out q.2.1.name),
        hit a b = false ∧ hit b a = false := by
    refine hpair.imp_of_mem fun {p q} hp hq hle => ?_
    obtain ⟨u, hu, hux, huw, -⟩ := hbox p hp
    obtain ⟨v, hv, hvx, -⟩ := hbox q hq
    exact hit_beside hu hv (by rw [hux, huw, hvx]; exact hle)
  refine ⟨out, hout, ?_, order, hperm, hfirst, ?_, fun first hhead => ?_⟩
  · rw [overlapping_eq_nil_iff, List.map_map]
    refine hitPairs_eq_nil ?_
    have horder : order.Pairwise fun s t =>
        ∀ a ∈ deskRects s.1.monitors (draftOf out s.1.name),
          ∀ b ∈ deskRects t.1.monitors (draftOf out t.1.name),
            hit a b = false ∧ hit b a = false := by
      rw [← hlaid, List.pairwise_map]
      exact hbeside
    have hscreens := (hperm.pairwise_iff (R := fun s t : Placed × Bool =>
        ∀ a ∈ deskRects s.1.monitors (draftOf out s.1.name),
          ∀ b ∈ deskRects t.1.monitors (draftOf out t.1.name),
            hit a b = false ∧ hit b a = false)
      fun {s t} h b hb a ha => ⟨(h a ha b hb).2, (h a ha b hb).1⟩).mp horder
    rw [List.pairwise_map]
    exact hscreens.imp fun {s t} h a ha b hb => (h a ha b hb).1
  · rw [← hlaid, List.isChain_map]
    refine hchain.imp_of_mem_imp fun p q hp hq hnext => ?_
    obtain ⟨u, hu, hux, huw, -⟩ := hbox p hp
    obtain ⟨v, hv, hvx, -⟩ := hbox q hq
    exact ⟨u, v, hu, hv, by rw [hux, huw, hvx]; exact hnext⟩
  · cases order with
    | nil => cases hhead
    | cons s order =>
      obtain rfl : s = first := Option.some.inj hhead
      have hmem : (0, s) ∈ laid := by
        rw [← hl]
        exact List.mem_cons_self
      obtain ⟨u, hu, hux, -, huh, huy⟩ := hbox _ hmem
      have hb : base = u.h := by rw [hbase s rfl, huh]
      have hzero : mathRound 0 = 0 := by exact_mod_cast mathRound_int 0
      refine ⟨u, hu, hux, ?_, fun t ht => ?_⟩
      · rw [huy, hb, sub_self, zero_div, hzero]
      · rw [← hlaid] at ht
        obtain ⟨q, hq, rfl⟩ := List.mem_map.mp ht
        obtain ⟨v, hv, -, -, -, hvy⟩ := hbox q hq
        refine ⟨v, hv, ?_⟩
        have hround := abs_mathRound_sub_le ((base - v.h) / 2)
        have hsame : v.y + v.h / 2 - u.h / 2 = mathRound ((base - v.h) / 2) - (base - v.h) / 2 := by
          rw [hvy, hb]
          ring
        rw [hsame]
        exact hround

/-! ## What the server says of it

The row is saved as a request, and the server finds no overlap in it. What it may still refuse is
a number out of range. -/

/-- An integer is a whole number. -/
theorem wholeNumber_int (z : Int) : wholeNumber (z : ℚ) = some z := by
  simp [wholeNumber]

/-- A draft that gives every machine a whole place and no size makes a request. -/
theorem exists_save {draft : String → Placement} {screens : List Placed}
    (h : ∀ s ∈ screens, ∃ p : Point, draft s.name = { x := p.x, y := p.y }) :
    ∃ sent, save draft screens = some sent := by
  have hpart : ∀ s ∈ screens, ∃ part, saveScreen draft s = some part := by
    intro s hs
    obtain ⟨p, hp⟩ := h s hs
    have hreal : deskSize s.monitors (draft s.name) = none := by
      rw [deskSize, hp]
      cases hu : union s.monitors <;> simp [isStretched, hu]
    refine ⟨(p, none), ?_⟩
    rw [saveScreen, hreal, hp]
    simp only [wholeNumber_int, Option.bind_eq_bind, Option.bind_some]
  have hgo : ∀ (screens : List Placed) (sent : Dict String Point × Dict String (Option Size)),
      (∀ s ∈ screens, ∃ part, saveScreen draft s = some part) →
      ∃ sent', screens.foldlM (fun sent s => (saveScreen draft s).map fun part =>
        (sent.1.put s.name part.1, sent.2.put s.name part.2)) sent = some sent' := by
    intro screens
    induction screens with
    | nil => exact fun sent _ => ⟨sent, rfl⟩
    | cons s screens ih =>
      intro sent hall
      obtain ⟨part, hs⟩ := hall s List.mem_cons_self
      rw [List.foldlM_cons, hs]
      exact ih _ fun t ht => hall t (List.mem_cons_of_mem s ht)
  exact hgo screens (∅, ∅) hpart

variable {M : Type}

/-- A draft without overlaps is not refused for one, and is taken if it is in range. -/
theorem validate_of_apart {d : DeskState} {hub : Hub M} {draft : String → Placement}
    {requested : Dict String Point} {resized : Dict String (Option Size)}
    (hreal : ∀ v ∈ connectedViews d hub, GeserDesk.RealMonitors v.monitors)
    (hfits : ∀ v ∈ connectedViews d hub, (draft v.name).Fits)
    (hsave : save draft (shown d hub) = some (requested, resized))
    (hapart : overlapping (shown d hub) draft = []) :
    (∀ a b, d.validate hub requested resized ≠ .error (.overlap a b))
      ∧ (InRange requested resized → ∃ taken, d.validate hub requested resized = .ok taken) := by
  have hsent := sent_of_save hsave
  -- once the positions and the sizes are taken, the two look at one desk
  have hdesk : ∀ next sizes,
      nextPositions ((d.screens hub).1.foldl (fun m v => m.put v.name v.origin) ∅) requested
        = .ok next →
      nextSizes (d.screens hub).1 d.sizes resized = .ok sizes →
      firstOverlap ((connectedViews d hub).map fun v =>
        (v.name, v.monitors.map (v.frame next sizes).deskRect)) = none := by
    intro next sizes hnext hsizes
    rw [firstOverlap_eq_none_iff, List.map_map]
    rw [overlapping_eq_nil_iff, shown, List.map_map] at hapart
    rw [← hapart]
    refine congrArg hitPairs (List.map_congr_left fun v hv => ?_)
    obtain ⟨p, size, hp, hsize, hx, hy, hdrawn⟩ := hsent.asked v hv
    have hframe := hsent.frame_eq hreal hfits hnext hsizes hv hp hsize
    simp only [Function.comp_apply, hframe, ofView,
      deskRects_eq (hreal v hv) (hfits v hv).positive hx hy hdrawn]
  constructor
  · intro a b herr
    obtain ⟨next, sizes, hnext, hsizes, hfirst⟩ := DeskState.validate_overlap_iff.mp ⟨a, b, herr⟩
    exact hfirst (hdesk next sizes hnext hsizes)
  · intro hrange
    have hmin : ∀ v ∈ connectedViews d hub,
        (draft v.name).x ≠ -2147483648 ∧ (draft v.name).y ≠ -2147483648 := by
      intro v hv
      obtain ⟨p, -, hp, -, hx, hy, -⟩ := hsent.asked v hv
      obtain ⟨hpx, hpy⟩ := hrange.1 _ _ hp
      rw [abs_le] at hpx hpy
      rw [hx, hy]
      have hmax : MAX_COORD = 1000000 := rfl
      constructor
      · exact_mod_cast (show p.x ≠ -2147483648 by omega)
      · exact_mod_cast (show p.y ≠ -2147483648 by omega)
    obtain ⟨next, hnext⟩ := (hsent.positions_iff hmin).mpr hrange.1
    obtain ⟨sizes, hsizes⟩ := (hsent.sizes_iff hreal hfits).mpr hrange.2
    refine ⟨(next, sizes), ?_⟩
    have hfirst := hdesk next sizes hnext hsizes
    rw [connectedViews] at hfirst
    simp only [DeskState.validate, bind, Except.bind, hnext, hsizes, hfirst]

/-- The machines the button arranges, each with whether it is the server's own: as in `shown`, those
that are connected. One that is turned off and not connected is in the editor's row as well. -/
def arrangeable (d : DeskState) (hub : Hub M) : List (Placed × Bool) :=
  (connectedViews d hub).map fun v => (ofView v, v.local_)

/-- **What the button drafts makes a request the server never refuses as overlapping**, and takes
if it is in range. -/
theorem autoArrange_accepted (d : DeskState) (hub : Hub M) (hnames : d.layout.screens.Nodup)
    (hreal : ∀ v ∈ connectedViews d hub, GeserDesk.RealMonitors v.monitors) :
    ∃ out requested resized, autoArrange (arrangeable d hub) = some out
      ∧ InRow (arrangeable d hub) (draftOf out)
      ∧ save (draftOf out) (shown d hub) = some (requested, resized)
      ∧ (∀ a b, d.validate hub requested resized ≠ .error (.overlap a b))
      ∧ (InRange requested resized → ∃ taken, d.validate hub requested resized = .ok taken) := by
  -- what the editor arranges is what it shows
  have hshown : (arrangeable d hub).map (·.1) = shown d hub := by
    rw [arrangeable, shown, List.map_map]
    rfl
  have hwhole : ∀ s ∈ arrangeable d hub, WholeMonitors s.1 := by
    intro s hs
    obtain ⟨v, hv, rfl⟩ := List.mem_map.mp hs
    exact ⟨v.monitors, rfl, hreal v hv⟩
  -- no name comes twice, as none does in the layout
  have hone : ((arrangeable d hub).map fun s => s.1.name).Nodup := by
    rw [arrangeable, List.map_map]
    have hall : ((d.screens hub).1.map (·.name)).Nodup := by
      obtain ⟨view, hname, hviews⟩ := d.screens_named hub
      rw [hviews, List.map_map]
      have hsame : d.layout.screens.map ((·.name) ∘ view) = d.layout.screens :=
        List.map_id'' hname _
      rw [hsame]
      exact hnames
    exact hall.sublist (List.filter_sublist.map _)
  -- the row, and what every machine is drafted at
  obtain ⟨out, hout, hrow⟩ := autoArrange_row hwhole hone
  have hplaces := autoArrange_whole hwhole hone hout
  have hdrafted : ∀ v ∈ connectedViews d hub, ∃ p : Point,
      draftOf out v.name = { x := p.x, y := p.y } := fun v hv =>
    hplaces (ofView v, v.local_) (List.mem_map_of_mem hv)
  -- all of it can be saved
  have hsaved : ∃ sent, save (draftOf out) (shown d hub) = some sent := by
    refine exists_save fun s hs => ?_
    obtain ⟨v, hv, rfl⟩ := List.mem_map.mp hs
    exact hdrafted v hv
  obtain ⟨⟨requested, resized⟩, hsave⟩ := hsaved
  -- no machine is asked another size, so the request is accepted
  have hfits : ∀ v ∈ connectedViews d hub, (draftOf out v.name).Fits := by
    intro v hv
    obtain ⟨p, hp⟩ := hdrafted v hv
    exact .inl (by rw [hp]; exact ⟨rfl, rfl⟩)
  exact ⟨out, requested, resized, hout, hrow, hsave,
    validate_of_apart hreal hfits hsave (hshown ▸ hrow.apart)⟩

/-- A stepped machine and a client, put in one row. -/
theorem autoArrange_accepted_stepped :
    ∃ out requested resized,
      autoArrange (arrangeable DeskState.steppedDesk DeskState.oneClient) = some out
      ∧ InRow (arrangeable DeskState.steppedDesk DeskState.oneClient) (draftOf out)
      ∧ save (draftOf out) (shown DeskState.steppedDesk DeskState.oneClient)
        = some (requested, resized)
      ∧ (∀ a b, DeskState.steppedDesk.validate DeskState.oneClient requested resized
        ≠ .error (.overlap a b))
      ∧ (InRange requested resized → ∃ taken,
        DeskState.steppedDesk.validate DeskState.oneClient requested resized = .ok taken) :=
  autoArrange_accepted DeskState.steppedDesk DeskState.oneClient (by decide) (by decide +kernel)

end Editor

end GeserDesk
