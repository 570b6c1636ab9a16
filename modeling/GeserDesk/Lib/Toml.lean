import Mathlib.Data.List.Basic

/-!
# TOML documents

A document is a table of values, as a parser that keeps the layout gives it: a table written as a
value (`{ ... }`) is told from one with a header or with dotted keys. This file has the values,
what a reader sees of them, and the edits a program makes in a table with their lookup equations.

Lookups find the first entry of a key; an entry that is there already is edited in its place.
-/

inductive Toml where
  | string (s : String)
  | integer (i : Int)
  | boolean (b : Bool)
  /-- A float, a date or a time, by its text. -/
  | scalar (text : String)
  | array (items : List Toml)
  /-- A table that is a value. -/
  | inlineTable (entries : List (String × Toml))
  /-- A table with a header or with dotted keys. -/
  | table (entries : List (String × Toml))

namespace Toml

/-- The entries of a table, in the order of the text. -/
abbrev Table : Type := List (String × Toml)

def asString : Toml → Option String
  | .string s => some s
  | _ => none

def asInteger : Toml → Option Int
  | .integer i => some i
  | _ => none

def asBoolean : Toml → Option Bool
  | .boolean b => some b
  | _ => none

def asArray : Toml → Option (List Toml)
  | .array items => some items
  | _ => none

/-- A table, however it is written. -/
def asTable : Toml → Option Table
  | .inlineTable entries | .table entries => some entries
  | _ => none

@[simp] theorem asString_string (s : String) : (string s).asString = some s := rfl

@[simp] theorem asInteger_integer (i : Int) : (integer i).asInteger = some i := rfl

@[simp] theorem asBoolean_boolean (b : Bool) : (boolean b).asBoolean = some b := rfl

@[simp] theorem asTable_table (t : Table) : (table t).asTable = some t := rfl

/-- An integer of the range. -/
def asIntegerIn (lo hi : Int) (v : Toml) : Option Int :=
  v.asInteger.filter fun i => lo ≤ i && i ≤ hi

/-- An integer within the bounds is read. -/
theorem asIntegerIn_integer {lo hi i : Int} (hlo : lo ≤ i) (hhi : i ≤ hi) :
    asIntegerIn lo hi (.integer i) = some i := by
  simp [asIntegerIn, hlo, hhi]

namespace Table

/-- What `k` is set to. -/
def get? : Table → String → Option Toml
  | [], _ => none
  | (k', v) :: t, k => if k' = k then some v else get? t k

/-- Set `k` to `v`, in its place if it has one. -/
def insert : Table → String → Toml → Table
  | [], k, v => [(k, v)]
  | (k', v') :: t, k, v => if k' = k then (k, v) :: t else (k', v') :: insert t k v

def remove (t : Table) (k : String) : Table := t.filter (·.1 ≠ k)

/-- Set `k`, or remove it. -/
def set (t : Table) (k : String) : Option Toml → Table
  | some v => t.insert k v
  | none => t.remove k

/-- Set or remove each of the keys in turn. -/
def setAll (t : Table) (entries : List (String × Option Toml)) : Table :=
  entries.foldl (fun t e => t.set e.1 e.2) t

/-! ## Lookup equations

What a table has under a key after each edit. -/

@[simp] theorem get?_nil (k : String) : get? [] k = none := rfl

/-- After an insertion the key has the value, and every other key what it had. -/
@[simp] theorem get?_insert (t : Table) (k k' : String) (v : Toml) :
    (t.insert k v).get? k' = if k' = k then some v else t.get? k' := by
  induction t with
  | nil => by_cases h : k' = k <;> simp [insert, get?, h, Ne.symm]
  | cons e t ih =>
    obtain ⟨k₀, v₀⟩ := e
    unfold insert
    by_cases hk : k₀ = k
    · by_cases h : k' = k
      · simp [hk, h, get?]
      · simp [hk, h, get?, Ne.symm h]
    · rw [if_neg hk]
      by_cases h₀ : k₀ = k'
      · have h : k' ≠ k := h₀ ▸ hk
        simp [get?, h₀, h]
      · simp [get?, h₀, ih]

/-- After a removal it has none. -/
@[simp] theorem get?_remove (t : Table) (k k' : String) :
    (t.remove k).get? k' = if k' = k then none else t.get? k' := by
  induction t with
  | nil => simp [remove]
  | cons e t ih =>
    obtain ⟨k₀, v₀⟩ := e
    unfold remove at ih ⊢
    by_cases hk : k₀ = k
    · rw [List.filter_cons_of_neg (by simp [hk]), ih]
      by_cases h : k' = k
      · simp [h]
      · simp [h, get?, hk, Ne.symm h]
    · rw [List.filter_cons_of_pos (by simp [hk])]
      by_cases h₀ : k₀ = k'
      · have h : k' ≠ k := h₀ ▸ hk
        simp [get?, h₀, h]
      · simp only [get?, if_neg h₀]
        exact ih

/-- A key that is set to something or to nothing has that. -/
@[simp] theorem get?_set (t : Table) (k k' : String) (v : Option Toml) :
    (t.set k v).get? k' = if k' = k then v else t.get? k' := by
  cases v with
  | none => exact get?_remove t k k'
  | some v => exact get?_insert t k k' v

/-- Setting several keys leaves the others. -/
theorem get?_setAll_of_notMem {entries : List (String × Option Toml)} {k : String}
    (h : k ∉ entries.map (·.1)) (t : Table) : (t.setAll entries).get? k = t.get? k := by
  induction entries generalizing t with
  | nil => rfl
  | cons e entries ih =>
    rw [List.map_cons, List.mem_cons, not_or] at h
    rw [setAll, List.foldl_cons]
    exact (ih h.2 _).trans (by rw [get?_set, if_neg h.1])

/-- Setting several keys gives each its own value, if none is set twice. -/
theorem get?_setAll_of_mem {entries : List (String × Option Toml)}
    (hnodup : (entries.map (·.1)).Nodup) {e : String × Option Toml} (h : e ∈ entries) (t : Table) :
    (t.setAll entries).get? e.1 = e.2 := by
  induction entries generalizing t with
  | nil => cases h
  | cons e₀ entries ih =>
    rw [List.map_cons, List.nodup_cons] at hnodup
    rw [setAll, List.foldl_cons]
    obtain rfl | h := List.mem_cons.mp h
    · exact (get?_setAll_of_notMem hnodup.1 _).trans (by rw [get?_set, if_pos rfl])
    · exact ih hnodup.2 h _

/-! ## Edits that change nothing -/

/-- Inserting what is there changes nothing. -/
theorem insert_of_get? {t : Table} {k : String} {v : Toml} (h : t.get? k = some v) :
    t.insert k v = t := by
  induction t with
  | nil => cases h
  | cons e t ih =>
    obtain ⟨k₀, v₀⟩ := e
    unfold get? at h
    unfold insert
    split_ifs at h ⊢ with hk
    · cases h
      rw [hk]
    · rw [ih h]

/-- Removing what is not there changes nothing. -/
theorem remove_of_get? {t : Table} {k : String} (h : t.get? k = none) : t.remove k = t := by
  induction t with
  | nil => rfl
  | cons e t ih =>
    obtain ⟨k₀, v₀⟩ := e
    unfold get? at h
    unfold remove at ih ⊢
    split_ifs at h with hk
    rw [List.filter_cons_of_pos (by simp [hk]), ih h]

/-- Setting a key to what it has changes nothing. -/
theorem set_of_get? {t : Table} {k : String} {v : Option Toml} (h : t.get? k = v) :
    t.set k v = t := by
  cases v with
  | none => exact remove_of_get? h
  | some v => exact insert_of_get? h

/-- Setting several keys to what they have changes nothing. -/
theorem setAll_of_get? {t : Table} {entries : List (String × Option Toml)}
    (h : ∀ e ∈ entries, t.get? e.1 = e.2) : t.setAll entries = t := by
  induction entries with
  | nil => rfl
  | cons e entries ih =>
    rw [setAll, List.foldl_cons, set_of_get? (h e (by simp))]
    exact ih fun e' he' => h e' (by simp [he'])

end Table

end Toml
