import Mathlib.Data.List.Induction

/-!
# Spans — sequences that open, run and close

A sequence of marks each of which opens a span, lies inside one or closes one. `Spans` is the
grammar of the sequences of whole spans; `SpansOpen` adds an unfinished one at the end.
`scan` is its two-state recogniser, which composes over `++`, so that what a step appends to a
sequence decides what the sequence has become.

* **`scan_closed_iff`**, **`scan_open_iff`**: the recogniser accepts exactly the grammar.
-/

/-- What one element of a sequence does to the span it stands in. -/
inductive Mark where
  | opens | inside | closes
deriving DecidableEq, Repr

/-- A sequence of whole spans: each opens, then only has marks inside it, then closes. -/
inductive Spans : List Mark → Prop where
  | nil : Spans []
  | span {ms body : List Mark} (hs : Spans ms) (hbody : ∀ m ∈ body, m = .inside) :
      Spans (ms ++ .opens :: body ++ [.closes])

/-- Whole spans, then one that has opened and not closed. -/
def SpansOpen (ms : List Mark) : Prop :=
  ∃ whole body, Spans whole ∧ (∀ m ∈ body, m = Mark.inside) ∧ ms = whole ++ .opens :: body

namespace Mark

/-- Whether a span is open after the mark; `none` if it cannot stand there. -/
def advance : Bool → Mark → Option Bool
  | false, .opens => some true
  | true, .inside => some true
  | true, .closes => some false
  | _, _ => none

/-- Whether a span is open after the marks; `none` if they break the grammar. -/
def scan (start : Bool) (ms : List Mark) : Option Bool := ms.foldlM advance start

@[simp] theorem scan_nil (start : Bool) : scan start [] = some start := rfl

/-- A mark advances the scan, or ends it. -/
@[simp] theorem scan_cons (start : Bool) (m : Mark) (ms : List Mark) :
    scan start (m :: ms) = (advance start m).bind fun b => scan b ms := rfl

/-- Two stretches are scanned one after the other. -/
theorem scan_append (start : Bool) (ms ms' : List Mark) :
    scan start (ms ++ ms') = (scan start ms).bind fun b => scan b ms' :=
  List.foldlM_append

/-- Marks inside a span leave it open. -/
theorem scan_inside {body : List Mark} (h : ∀ m ∈ body, m = .inside) :
    scan true body = some true := by
  induction body with
  | nil => rfl
  | cons m body ih =>
    rw [scan_cons, h m List.mem_cons_self]
    exact ih fun m' hm' => h m' (List.mem_cons_of_mem m hm')

/-- Whole spans end closed. -/
theorem scan_of_spans {ms : List Mark} (h : Spans ms) : scan false ms = some false := by
  induction h with
  | nil => rfl
  | @span ms body hs hbody ih =>
    have hopen : scan true (body ++ [.closes]) = some false := by
      rw [scan_append, scan_inside hbody]; rfl
    rw [List.append_assoc, scan_append, ih]
    exact hopen

/-- Whole spans and an open one end open. -/
theorem scan_of_spansOpen {ms : List Mark} (h : SpansOpen ms) : scan false ms = some true := by
  obtain ⟨whole, body, hwhole, hbody, rfl⟩ := h
  rw [scan_append, scan_of_spans hwhole]
  exact scan_inside hbody

/-- What the recogniser accepts is in the grammar. The induction takes marks off the end, the
way the grammar is built up. -/
theorem spans_of_scan (ms : List Mark) :
    (scan false ms = some false → Spans ms) ∧ (scan false ms = some true → SpansOpen ms) := by
  induction ms using List.reverseRecOn with
  | nil => exact ⟨fun _ => .nil, fun h => by cases h⟩
  | append_singleton ms m ih =>
    have hscan : scan false (ms ++ [m]) = (scan false ms).bind fun b => advance b m := by
      rw [scan_append]
      cases scan false ms with
      | none => rfl
      | some b =>
        show (advance b m).bind some = advance b m
        exact Option.bind_fun_some (advance b m)
    rw [hscan]
    cases hb : scan false ms with
    | none => exact ⟨nofun, nofun⟩
    | some b =>
      cases b with
      | false =>
        -- only an opening mark can follow
        cases m with
        | opens => exact ⟨nofun, fun _ => ⟨ms, [], ih.1 hb, nofun, rfl⟩⟩
        | inside => exact ⟨nofun, nofun⟩
        | closes => exact ⟨nofun, nofun⟩
      | true =>
        obtain ⟨whole, body, hwhole, hbody, rfl⟩ := ih.2 hb
        cases m with
        | opens => exact ⟨nofun, nofun⟩
        | inside =>
          refine ⟨nofun, fun _ => ⟨whole, body ++ [.inside], hwhole, ?_, by simp⟩⟩
          intro m hm
          rcases List.mem_append.mp hm with hm | hm
          · exact hbody m hm
          · exact List.mem_singleton.mp hm
        | closes => exact ⟨fun _ => .span hwhole hbody, nofun⟩

/-- A list of marks ends closed just if it is whole spans. -/
theorem scan_closed_iff {ms : List Mark} : scan false ms = some false ↔ Spans ms :=
  ⟨(spans_of_scan ms).1, scan_of_spans⟩

/-- A list of marks ends open just if it is whole spans and an open one. -/
theorem scan_open_iff {ms : List Mark} : scan false ms = some true ↔ SpansOpen ms :=
  ⟨(spans_of_scan ms).2, scan_of_spansOpen⟩

end Mark
