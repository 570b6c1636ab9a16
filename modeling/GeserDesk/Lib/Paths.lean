import Mathlib.Data.List.Infix

/-!
# Names and paths as text

What is a control character, which names are checked for. A relative path is written with `/`
between its parts. `pathOf` joins parts, `pathParts` takes a text apart again; on parts that have
no `/` of their own the two are inverse (`pathParts_pathOf`).
-/

/-- `char::is_control`: the Unicode category `Cc`. -/
def isControl (c : Char) : Bool := c.val ≤ 0x1F || (0x7F ≤ c.val && c.val ≤ 0x9F)

/-- The pieces of a text between its separators, empty ones included. -/
def pathParts (text : String) : List String := (text.toList.splitOn '/').map String.ofList

/-- The text of a path with these parts. -/
def pathOf (parts : List String) : String := "/".intercalate parts

/-- A path of one part is the part itself. -/
@[simp] theorem pathOf_singleton (part : String) : pathOf [part] = part :=
  String.intercalate_singleton

/-- One part more comes after a separator. -/
theorem pathOf_concat {parts : List String} (h : parts ≠ []) (part : String) :
    pathOf (parts ++ [part]) = pathOf parts ++ "/" ++ part := by
  unfold pathOf
  rw [String.intercalate_append_of_ne_nil h (List.cons_ne_nil part []),
    String.intercalate_singleton]

/-- The characters of a path. -/
theorem toList_pathOf (parts : List String) :
    (pathOf parts).toList = ['/'].intercalate (parts.map String.toList) :=
  String.toList_intercalate

/-- A path of components is read back. -/
theorem pathParts_pathOf {parts : List String} (hne : parts ≠ [])
    (h : ∀ part ∈ parts, '/' ∉ part.toList) : pathParts (pathOf parts) = parts := by
  have hparts : ∀ cs ∈ parts.map String.toList, '/' ∉ cs := by
    intro cs hcs
    obtain ⟨part, hpart, rfl⟩ := List.mem_map.mp hcs
    exact h part hpart
  rw [pathParts, toList_pathOf, List.splitOn_intercalate '/' hparts (by simpa using hne),
    List.map_map]
  have hid : String.ofList ∘ String.toList = id := by
    funext s
    exact String.ofList_toList
  rw [hid, List.map_id]

/-- Joining the pieces of a text gives it back, so no two texts have the same pieces. -/
theorem pathParts_injective : Function.Injective pathParts := by
  intro s t h
  have hchars : s.toList.splitOn '/' = t.toList.splitOn '/' :=
    List.map_injective_iff.mpr (fun _ _ h => String.ofList_injective h) h
  have hjoined := congrArg (['/'].intercalate ·) hchars
  simp only [List.intercalate_splitOn] at hjoined
  exact String.toList_inj.mp hjoined

/-- No part has a separator in it. -/
theorem slash_notMem_pathParts (text : String) : ∀ part ∈ pathParts text, '/' ∉ part.toList := by
  have hsplit : ∀ l : List Char, ∀ cs ∈ l.splitOn '/', '/' ∉ cs := by
    intro l
    induction l with
    | nil => simp
    | cons c l ih =>
      rw [List.splitOn_cons_eq_if_modifyHead]
      split
      · intro cs hcs
        rcases List.mem_cons.mp hcs with rfl | hcs
        · simp
        · exact ih cs hcs
      · next hc =>
        obtain ⟨first, rest, hl⟩ := List.exists_cons_of_ne_nil (List.splitOn_ne_nil '/' l)
        rw [hl] at ih ⊢
        intro cs hcs
        rcases List.mem_cons.mp hcs with rfl | hcs
        · intro hmem
          rcases List.mem_cons.mp hmem with heq | hmem
          · exact hc (by simp [← heq])
          · exact ih first (by simp) hmem
        · exact ih cs (List.mem_cons_of_mem _ hcs)
  intro part hpart
  obtain ⟨cs, hcs, rfl⟩ := List.mem_map.mp hpart
  rw [String.toList_ofList]
  exact hsplit _ cs hcs

/-- Every text has one part at least. -/
theorem pathParts_ne_nil (text : String) : pathParts text ≠ [] := by
  simp [pathParts]

/-- Paths of components are equal just if their parts are. -/
theorem pathOf_inj {parts parts' : List String}
    (h : parts ≠ [] ∧ ∀ part ∈ parts, '/' ∉ part.toList)
    (h' : parts' ≠ [] ∧ ∀ part ∈ parts', '/' ∉ part.toList) (heq : pathOf parts = pathOf parts') :
    parts = parts' := by
  rw [← pathParts_pathOf h.1 h.2, ← pathParts_pathOf h'.1 h'.2, heq]

/-- A text is the path of its parts. -/
theorem pathOf_pathParts (text : String) : pathOf (pathParts text) = text :=
  pathParts_injective (pathParts_pathOf (pathParts_ne_nil text) (slash_notMem_pathParts text))

/-- A path has a separator in it if and only if it has more than one part. -/
theorem slash_mem_pathOf_iff {parts : List String} (hne : parts ≠ [])
    (h : ∀ part ∈ parts, '/' ∉ part.toList) :
    '/' ∈ (pathOf parts).toList ↔ parts.length ≠ 1 := by
  constructor
  · intro hmem hlen
    obtain ⟨part, rfl⟩ := List.length_eq_one_iff.mp hlen
    rw [pathOf_singleton] at hmem
    exact h part List.mem_cons_self hmem
  · intro hlen
    by_contra hmem
    have hone : pathParts (pathOf parts) = [pathOf parts] := by
      rw [pathParts, List.splitOn_eq_singleton hmem, List.map_singleton, String.ofList_toList]
    rw [pathParts_pathOf hne h] at hone
    exact hlen (by rw [hone]; rfl)
