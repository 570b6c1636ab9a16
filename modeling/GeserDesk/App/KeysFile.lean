import GeserDesk.Client.KeyWords
import GeserDesk.Lib.Toml

/-!
# `keys.toml`

`geserdesk-app/src/keys.rs`: what the file says (`parse`), the check of what the window wants to
save, and the edit of the document. A text and the document the TOML library makes of it stand for
each other, and tables are read in the order of their keys.

* **`keys_saved`**: entries that pass the check are saved, all of them and nothing else; those that
  are refused would not all be kept, unless two rules spell one combination differently.
-/

namespace GeserDesk

/-! ## What the file says

The two tables of `keys.toml`, read line by line; a line that is not understood is a problem, and
the rest still counts. -/

/-- What the file says, once understood. -/
structure KeyConfig where
  rules : List Rule := []
  /-- How this machine does an action, by the action's code. -/
  perform : Dict Nat Perform := ∅

/-- A line that is left out. -/
inductive KeyProblem where
  /-- No file with the two tables. -/
  | file
  | capture (trigger : String) (e : KeyError)
  | unknownAction (action : String)
  | perform (action : String) (e : KeyError)
deriving DecidableEq

/-- A table of texts, by its keys. -/
def readTexts : Option Toml → Option (List (String × String))
  | none => some []
  | some v => do
    let entries ← (← v.asTable).mapM fun e => e.2.asString.map fun s => (e.1, s)
    some (entries.mergeSort fun a b => a.1 ≤ b.1)

def captureLine (c : KeyConfig × List KeyProblem) (e : String × String) :
    KeyConfig × List KeyProblem :=
  match Rule.parse e.1 e.2 with
  | .ok rule => ({ c.1 with rules := c.1.rules ++ [rule] }, c.2)
  | .error err => (c.1, c.2 ++ [.capture e.1 err])

def performLine (c : KeyConfig × List KeyProblem) (e : String × String) :
    KeyConfig × List KeyProblem :=
  match Consumer.fromName e.1 with
  | none => (c.1, c.2 ++ [.unknownAction e.1])
  | some hid =>
    match Perform.parse e.2 with
    | .ok perform => ({ c.1 with perform := c.1.perform.put hid perform }, c.2)
    | .error err => (c.1, c.2 ++ [.perform e.1 err])

namespace KeyConfig

/-- Understand the file: the setup, and what was wrong with each line left out. -/
def parse (doc : Toml.Table) : KeyConfig × List KeyProblem :=
  match readTexts (doc.get? "capture"), readTexts (doc.get? "perform") with
  | some capture, some perform => perform.foldl performLine (capture.foldl captureLine ({}, []))
  | _, _ => ({}, [.file])

end KeyConfig

/-! ## What is saved

What the form holds, what it is checked for, and the two tables put in place of those that were
there. -/

structure RuleEntry where
  trigger : String
  action : String
deriving DecidableEq

structure WayEntry where
  action : String
  way : String
deriving DecidableEq

/-- The two tables, as the window shows and edits them. -/
structure KeyEntries where
  rules : List RuleEntry := []
  ways : List WayEntry := []

inductive CheckError where
  | rule (trigger : String) (e : KeyError)
  | usedTwice (trigger : String)
  | unknownAction (action : String)
  | setTwice (action : String)
  | way (action : String) (e : KeyError)
deriving DecidableEq

/-- The combination a rule is for. -/
def Rule.combination (r : Rule) : ModMask × Nat := (r.mods, r.hid)

def checkRules (seen : List (ModMask × Nat)) : List RuleEntry → Except CheckError Unit
  | [] => .ok ()
  | r :: rules =>
    match Rule.parse r.trigger r.action with
    | .error e => .error (.rule r.trigger e)
    | .ok rule =>
      if rule.combination ∈ seen then .error (.usedTwice r.trigger)
      else checkRules (rule.combination :: seen) rules

def checkWays (seen : List String) : List WayEntry → Except CheckError Unit
  | [] => .ok ()
  | w :: ways =>
    if (Consumer.fromName w.action).isNone then .error (.unknownAction w.action)
    else if w.action ∈ seen then .error (.setTwice w.action)
    else match Perform.parse w.way with
      | .error e => .error (.way w.action e)
      | .ok _ => checkWays (w.action :: seen) ways

/-- `Table::insert` of each pair in turn. -/
def tableOfTexts (pairs : List (String × String)) : Toml.Table :=
  pairs.foldl (fun t e => t.insert e.1 (.string e.2)) []

/-- The table `name` replaced; an empty one is removed. -/
def putTexts (doc : Toml.Table) (name : String) (pairs : List (String × String)) : Toml.Table :=
  if pairs.isEmpty then doc.remove name else doc.insert name (.table (tableOfTexts pairs))

namespace KeyEntries

/-- Check every entry with the parsers the machine reads the file with. -/
def check (e : KeyEntries) : Except CheckError Unit :=
  match checkRules [] e.rules with
  | .error err => .error err
  | .ok _ => checkWays [] e.ways

def rulePairs (e : KeyEntries) : List (String × String) :=
  e.rules.map fun r => (trim r.trigger, trim r.action)

def wayPairs (e : KeyEntries) : List (String × String) :=
  e.ways.map fun w => (trim w.action, trim w.way)

/-- The document with the two tables replaced. -/
def written (doc : Toml.Table) (e : KeyEntries) : Toml.Table :=
  putTexts (putTexts doc "capture" e.rulePairs) "perform" e.wayPairs

def edited (doc : Toml.Table) (e : KeyEntries) : Except CheckError Toml.Table :=
  match e.check with
  | .error err => .error err
  | .ok _ => .ok (written doc e)

/-- Everything the entries say is in the document, and nothing is lost, merged or added; its other
tables are those of `doc`. -/
structure Kept (doc : Toml.Table) (e : KeyEntries) (doc' : Toml.Table) : Prop where
  problems : (KeyConfig.parse doc').2 = []
  rules : ∃ rules : List Rule,
    e.rules.map (fun r => Rule.parse r.trigger r.action) = rules.map .ok
      ∧ (KeyConfig.parse doc').1.rules.Perm rules
  understood : ∀ w ∈ e.ways, ∃ hid p, Consumer.fromName w.action = some hid
    ∧ Perform.parse w.way = .ok p
  perform : ∀ hid p, (KeyConfig.parse doc').1.perform.get? hid = some p ↔
    ∃ w ∈ e.ways, Consumer.fromName w.action = some hid ∧ Perform.parse w.way = .ok p
  counted : (KeyConfig.parse doc').1.perform.entries.length = e.ways.length
  others : ∀ name, name ≠ "capture" → name ≠ "perform" → doc'.get? name = doc.get? name

/-- Two rules are for one combination, and are spelled differently. -/
def SpelledTwice (e : KeyEntries) : Prop :=
  ∃ r ∈ e.rules, ∃ r' ∈ e.rules, trim r.trigger ≠ trim r'.trigger ∧ ∃ rule rule',
    Rule.parse r.trigger r.action = .ok rule ∧ Rule.parse r'.trigger r'.action = .ok rule'
      ∧ rule.combination = rule'.combination

/-- That is all there is against the entries: each is understood, and no text and no action is there
twice. -/
structure OnlySpelledTwice (e : KeyEntries) : Prop where
  twice : e.SpelledTwice
  rules : ∃ rules : List Rule, e.rules.map (fun r => Rule.parse r.trigger r.action) = rules.map .ok
  triggers : (e.rules.map fun r => trim r.trigger).Nodup
  understood : ∀ w ∈ e.ways, ∃ hid p, Consumer.fromName w.action = some hid
    ∧ Perform.parse w.way = .ok p
  actions : (e.ways.map (·.action)).Nodup

end KeyEntries

/-! ## The table that is written

A table of texts read back gives the texts put into it, with no other table of the document
touched. -/

/-- A text under a new key comes last; one under a key there is takes its place. -/
theorem insert_text (l : List (String × String)) (k v : String) :
    ∃ l' : List (String × String),
      Toml.Table.insert (l.map fun e => (e.1, .string e.2)) k (.string v)
          = l'.map (fun e => (e.1, .string e.2))
        ∧ (k ∉ l.map (·.1) → l' = l ++ [(k, v)]) ∧ (k ∈ l.map (·.1) → l'.length = l.length) := by
  induction l with
  | nil => exact ⟨[(k, v)], rfl, fun _ => rfl, nofun⟩
  | cons e l ih =>
    obtain ⟨l', hl', hnew, hold⟩ := ih
    rw [List.map_cons, Toml.Table.insert]
    split
    · next hk =>
      refine ⟨(k, v) :: l, rfl, fun hne => absurd ?_ hne, fun _ => rfl⟩
      exact List.mem_map.mpr ⟨e, by simp, hk⟩
    · next hk =>
      refine ⟨e :: l', by rw [hl']; rfl, fun hne => ?_, fun hmem => ?_⟩
      · rw [hnew fun h => hne (by simp [h]), List.cons_append]
      · rw [List.map_cons, List.mem_cons] at hmem
        rw [List.length_cons, List.length_cons, hold (hmem.resolve_left (Ne.symm hk))]

/-- A table written from texts is a list of texts, no longer than the writes; with no key twice it
is the texts themselves. -/
theorem foldl_insert_text (pairs l : List (String × String)) :
    ∃ l' : List (String × String),
      pairs.foldl (fun t e => Toml.Table.insert t e.1 (.string e.2))
          (l.map fun e => (e.1, .string e.2)) = l'.map (fun e => (e.1, .string e.2))
        ∧ l'.length ≤ l.length + pairs.length
        ∧ ((l.map (·.1) ++ pairs.map (·.1)).Nodup → l' = l ++ pairs)
        ∧ (¬(l.map (·.1) ++ pairs.map (·.1)).Nodup → (l.map (·.1)).Nodup →
          l'.length < l.length + pairs.length) := by
  induction pairs generalizing l with
  | nil => exact ⟨l, rfl, by simp, by simp, fun h hl => absurd (by simpa using hl) h⟩
  | cons e pairs ih =>
    obtain ⟨l₁, hl₁, hnew, hold⟩ := insert_text l e.1 e.2
    obtain ⟨l', hl', hle, hsame, hless⟩ := ih l₁
    refine ⟨l', by rw [List.foldl_cons, hl₁]; exact hl', ?_⟩
    by_cases hmem : e.1 ∈ l.map (·.1)
    · -- the key comes again: the table has lost a pair
      rw [hold hmem] at hle
      refine ⟨by rw [List.length_cons]; omega, fun hnodup => ?_, fun _ _ => ?_⟩
      · exact absurd rfl ((List.nodup_append.mp hnodup).2.2 _ hmem e.1 (by simp))
      · rw [List.length_cons]
        omega
    · have hl₁' := hnew hmem
      subst hl₁'
      have happend : (l ++ [(e.1, e.2)]).map (·.1) ++ pairs.map (·.1)
          = l.map (·.1) ++ (e :: pairs).map (·.1) := by simp
      rw [happend] at hsame hless
      simp only [List.length_append, List.length_cons, List.length_nil] at hle hless ⊢
      refine ⟨by omega, fun hnodup => by rw [hsame hnodup]; simp, fun hnot hl => ?_⟩
      have hnodup : ((l ++ [(e.1, e.2)]).map (·.1)).Nodup := by
        rw [List.map_append, List.nodup_append]
        refine ⟨hl, by simp, fun a ha b hb => ?_⟩
        obtain rfl : b = e.1 := by simpa using hb
        rintro rfl
        exact hmem ha
      have := hless hnot hnodup
      omega

/-- The texts of the table, each key once. -/
theorem tableOfTexts_spec (pairs : List (String × String)) :
    ∃ l : List (String × String), tableOfTexts pairs = l.map (fun e => (e.1, .string e.2))
      ∧ l.length ≤ pairs.length ∧ ((pairs.map (·.1)).Nodup → l = pairs)
      ∧ (¬(pairs.map (·.1)).Nodup → l.length < pairs.length) := by
  obtain ⟨l, hl, hle, hsame, hless⟩ := foldl_insert_text pairs []
  exact ⟨l, hl, by simpa using hle, fun h => by simpa using hsame (by simpa using h),
    fun h => by simpa using hless (by simpa using h) (by simp)⟩

/-- A list of texts reads as itself. -/
theorem mapM_texts (l : List (String × String)) :
    (l.map fun e => (e.1, Toml.string e.2)).mapM
      (fun e : String × Toml => e.2.asString.map fun s => (e.1, s)) = some l := by
  induction l with
  | nil => rfl
  | cons e l ih =>
    rw [List.map_cons, List.mapM_cons, ih]
    rfl

/-- What is read of a table that was replaced. -/
theorem readTexts_putTexts (doc : Toml.Table) (name : String) (pairs : List (String × String)) :
    ∃ l l', readTexts ((putTexts doc name pairs).get? name) = some l' ∧ l'.Perm l
      ∧ l.length ≤ pairs.length ∧ ((pairs.map (·.1)).Nodup → l = pairs)
      ∧ (¬(pairs.map (·.1)).Nodup → l.length < pairs.length) := by
  unfold putTexts
  split
  · next hempty =>
    rw [List.isEmpty_iff.mp hempty]
    exact ⟨[], [], by simp [readTexts], .refl _, by simp, by simp, by simp⟩
  · obtain ⟨l, hl, hspec⟩ := tableOfTexts_spec pairs
    refine ⟨l, l.mergeSort fun a b => a.1 ≤ b.1, ?_, List.mergeSort_perm .., hspec⟩
    rw [Toml.Table.get?_insert, if_pos rfl, hl, readTexts]
    simp only [Toml.asTable_table, Option.bind_eq_bind, Option.bind_some, mapM_texts]

/-- Writing one table of the file leaves the others as they are. -/
theorem get?_putTexts_of_ne {doc : Toml.Table} {name other : String}
    {pairs : List (String × String)} (h : other ≠ name) :
    (putTexts doc name pairs).get? other = doc.get? other := by
  unfold putTexts
  split
  · rw [Toml.Table.get?_remove, if_neg h]
  · rw [Toml.Table.get?_insert, if_neg h]

/-! ## The lines that are understood

Reading a table keeps the lines that are understood, in the order they stand. -/

def ruleOf (e : String × String) : Option Rule := (Rule.parse e.1 e.2).toOption

def wayOf (e : String × String) : Option (Nat × Perform) :=
  (Consumer.fromName e.1).bind fun hid => (Perform.parse e.2).toOption.map fun p => (hid, p)

/-- Every line is a rule or a problem. -/
theorem captureLines (l : List (String × String)) (c : KeyConfig × List KeyProblem) :
    ∃ problems : List KeyProblem, l.foldl captureLine c
        = ({ c.1 with rules := c.1.rules ++ l.filterMap ruleOf }, c.2 ++ problems)
      ∧ ((∀ e ∈ l, (ruleOf e).isSome) → problems = []) := by
  induction l generalizing c with
  | nil => exact ⟨[], by simp, by simp⟩
  | cons e l ih =>
    obtain ⟨problems, hl, hnone⟩ := ih (captureLine c e)
    rw [List.foldl_cons, hl]
    unfold captureLine
    cases hparse : Rule.parse e.1 e.2 with
    | ok rule =>
      have hrule : ruleOf e = some rule := by rw [ruleOf, hparse]; rfl
      refine ⟨problems, by simp [hrule], fun h => hnone fun e' he' => h e' (by simp [he'])⟩
    | error err =>
      have hrule : ruleOf e = none := by rw [ruleOf, hparse]; rfl
      refine ⟨.capture e.1 err :: problems, by simp [hrule], fun h => ?_⟩
      have hsome := h e (by simp)
      rw [hrule] at hsome
      cases hsome

/-- An entry of the table of actions is performed or is a problem. -/
theorem performLine_cases (c : KeyConfig × List KeyProblem) (e : String × String) :
    (∃ way, wayOf e = some way
        ∧ performLine c e = ({ c.1 with perform := c.1.perform.put way.1 way.2 }, c.2))
      ∨ wayOf e = none ∧ ∃ problem, performLine c e = (c.1, c.2 ++ [problem]) := by
  unfold performLine wayOf
  cases Consumer.fromName e.1 with
  | none => exact .inr ⟨rfl, _, rfl⟩
  | some hid =>
    cases Perform.parse e.2 with
    | ok p => exact .inl ⟨(hid, p), rfl, rfl⟩
    | error err => exact .inr ⟨rfl, _, rfl⟩

/-- All of them: what is performed is bound in their order, and each of the others is a problem. -/
theorem performLines (l : List (String × String)) (c : KeyConfig × List KeyProblem) :
    ∃ problems : List KeyProblem, l.foldl performLine c
        = ({ c.1 with
            perform := (l.filterMap wayOf).foldl (fun m e => m.put e.1 e.2) c.1.perform },
          c.2 ++ problems)
      ∧ ((∀ e ∈ l, (wayOf e).isSome) → problems = []) := by
  induction l generalizing c with
  | nil => exact ⟨[], by simp, by simp⟩
  | cons e l ih =>
    obtain ⟨problems, hl, hnone⟩ := ih (performLine c e)
    rw [List.foldl_cons, hl]
    rcases performLine_cases c e with ⟨way, hway, hline⟩ | ⟨hway, problem, hline⟩
    · refine ⟨problems, by simp [hway, hline], fun h => hnone fun e' he' => h e' (by simp [he'])⟩
    · refine ⟨problem :: problems, by simp [hway, hline], fun h => ?_⟩
      have hsome := h e (by simp)
      rw [hway] at hsome
      cases hsome

/-! ## The actions

Ways of performing an action are put one over another, by its usage. With no action twice, each
stays. -/

/-- A binding adds one entry at most. -/
theorem length_put_le {V : Type} (m : Dict Nat V) (k : Nat) (v : V) :
    (m.put k v).entries.length ≤ m.entries.length + 1 := by
  rw [Dict.put, AList.entries_insert, List.length_cons]
  exact Nat.succ_le_succ (List.kerase_sublist k m.entries).length_le

/-- A binding adds one entry where the key was free. -/
theorem length_put_new {V : Type} {m : Dict Nat V} {k : Nat} (h : m.get? k = none) (v : V) :
    (m.put k v).entries.length = m.entries.length + 1 := by
  rw [Dict.put, AList.entries_insert_of_notMem (AList.lookup_eq_none.mp h), List.length_cons]

/-- A list of bindings adds no more entries than it has. -/
theorem length_foldl_put_le {V : Type} (l : List (Nat × V)) (m : Dict Nat V) :
    (l.foldl (fun m e => m.put e.1 e.2) m).entries.length ≤ m.entries.length + l.length := by
  induction l generalizing m with
  | nil => exact Nat.le_refl _
  | cons e l ih =>
    have hle := ih (m.put e.1 e.2)
    have hput := length_put_le m e.1 e.2
    rw [List.foldl_cons, List.length_cons]
    omega

/-- Of pairs with different keys nothing is lost. -/
theorem foldl_put_spec {V : Type} {l : List (Nat × V)} {m : Dict Nat V}
    (hnodup : (l.map (·.1)).Nodup) (hnew : ∀ e ∈ l, m.get? e.1 = none) :
    (l.foldl (fun m e => m.put e.1 e.2) m).entries.length = m.entries.length + l.length
      ∧ ∀ k v, (l.foldl (fun m e => m.put e.1 e.2) m).get? k = some v ↔
        (k, v) ∈ l ∨ m.get? k = some v := by
  induction l generalizing m with
  | nil => simp
  | cons e l ih =>
    rw [List.map_cons, List.nodup_cons] at hnodup
    have hrest : ∀ e' ∈ l, (m.put e.1 e.2).get? e'.1 = none := by
      intro e' he'
      rw [Dict.get?_put, if_neg]
      · exact hnew e' (by simp [he'])
      · intro heq
        exact hnodup.1 (heq ▸ List.mem_map_of_mem he')
    obtain ⟨hlen, hget⟩ := ih hnodup.2 hrest
    refine ⟨?_, fun k v => ?_⟩
    · rw [List.foldl_cons, hlen, length_put_new (hnew e (by simp)), List.length_cons]
      omega
    · rw [List.foldl_cons, hget, Dict.get?_put]
      by_cases hk : k = e.1
      · subst hk
        have habsent : (e.1, v) ∉ l := fun h => hnodup.1 (List.mem_map.mpr ⟨_, h, rfl⟩)
        have hnone := hnew e (by simp)
        simp [habsent, hnone, Prod.ext_iff, eq_comm]
      · have hne : (k, v) ≠ e := fun h => hk (congrArg Prod.fst h)
        simp [hk, hne]

/-! ## Saving

Entries that can be read one by one are all there after the save, and there are no problems. -/

namespace KeyEntries

/-- What is read of a document with the two tables replaced. -/
structure Reads (pairs lines lines' : List (String × String)) : Prop where
  perm : lines'.Perm lines
  le : lines.length ≤ pairs.length
  same : (pairs.map (·.1)).Nodup → lines = pairs
  less : ¬(pairs.map (·.1)).Nodup → lines.length < pairs.length

/-- What is read of a file that has been written is what is read of its two tables. -/
theorem parse_written (doc : Toml.Table) (e : KeyEntries) :
    ∃ capture capture' perform perform', Reads e.rulePairs capture capture'
      ∧ Reads e.wayPairs perform perform'
      ∧ KeyConfig.parse (written doc e)
        = perform'.foldl performLine (capture'.foldl captureLine ({}, [])) := by
  obtain ⟨capture, capture', hcapture, hperm, hle, hsame, hless⟩ :=
    readTexts_putTexts doc "capture" e.rulePairs
  obtain ⟨perform, perform', hperform, hperm', hle', hsame', hless'⟩ :=
    readTexts_putTexts (putTexts doc "capture" e.rulePairs) "perform" e.wayPairs
  refine ⟨capture, capture', perform, perform', ⟨hperm, hle, hsame, hless⟩,
    ⟨hperm', hle', hsame', hless'⟩, ?_⟩
  have hother : (written doc e).get? "capture"
      = (putTexts doc "capture" e.rulePairs).get? "capture" := get?_putTexts_of_ne (by decide)
  unfold KeyConfig.parse
  rw [hother, hcapture, written, hperform]

/-- The rules an entry list denotes are those its texts denote once written. -/
theorem filterMap_rulePairs {e : KeyEntries} {rules : List Rule}
    (h : e.rules.map (fun r => Rule.parse r.trigger r.action) = rules.map .ok) :
    e.rulePairs.filterMap ruleOf = rules ∧ ∀ pair ∈ e.rulePairs, (ruleOf pair).isSome := by
  unfold rulePairs
  generalize e.rules = l at h
  induction l generalizing rules with
  | nil =>
    obtain rfl : rules = [] := by simpa using h.symm
    simp
  | cons r l ih =>
    obtain _ | ⟨rule, rules⟩ := rules
    · cases h
    rw [List.map_cons, List.map_cons, List.cons.injEq] at h
    obtain ⟨hrules, hsome⟩ := ih h.2
    have hrule : ruleOf (trim r.trigger, trim r.action) = some rule := by
      rw [ruleOf, Rule.parse_trim.mpr h.1]
      rfl
    refine ⟨by simp [hrule, hrules], fun pair hpair => ?_⟩
    rcases List.mem_cons.mp hpair with rfl | hpair
    · rw [hrule]; rfl
    · exact hsome pair hpair

/-- A way is read back from its trimmed texts. -/
theorem wayOf_trim {w : WayEntry} {hid : Nat} {p : Perform}
    (hname : Consumer.fromName w.action = some hid) (hway : Perform.parse w.way = .ok p) :
    wayOf (trim w.action, trim w.way) = some (hid, p) := by
  unfold wayOf
  rw [Consumer.trim_of_fromName hname, hname, Perform.parse_trim, hway]
  rfl

/-- The ways that are written are those of the entries; the codes of the actions differ, as their
names do. -/
theorem filterMap_wayPairs {ways : List WayEntry}
    (hways : ∀ w ∈ ways, ∃ hid p, Consumer.fromName w.action = some hid
      ∧ Perform.parse w.way = .ok p) (hactions : (ways.map (·.action)).Nodup) :
    let written := (ways.map fun w => (trim w.action, trim w.way)).filterMap wayOf
    written.length = ways.length ∧ (written.map (·.1)).Nodup
      ∧ ∀ hid p, (hid, p) ∈ written ↔
        ∃ w ∈ ways, Consumer.fromName w.action = some hid ∧ Perform.parse w.way = .ok p := by
  induction ways with
  | nil => simp
  | cons w ways ih =>
    rw [List.map_cons, List.nodup_cons] at hactions
    obtain ⟨hlen, hnodup, hmem⟩ := ih (fun w' hw' => hways w' (by simp [hw'])) hactions.2
    obtain ⟨hid, p, hhid, hp⟩ := hways w (by simp)
    have hwritten : ((w :: ways).map fun w => (trim w.action, trim w.way)).filterMap wayOf
        = (hid, p) :: (ways.map fun w => (trim w.action, trim w.way)).filterMap wayOf := by
      rw [List.map_cons, List.filterMap_cons_some (wayOf_trim hhid hp)]
    dsimp only at hlen hnodup hmem ⊢
    rw [hwritten]
    refine ⟨by rw [List.length_cons, hlen, List.length_cons], ?_, fun hid' p' => ?_⟩
    · rw [List.map_cons, List.nodup_cons]
      refine ⟨fun h => ?_, hnodup⟩
      obtain ⟨way, hway, hcode⟩ := List.mem_map.mp h
      obtain ⟨w', hw', hhid', -⟩ := (hmem way.1 way.2).mp hway
      rw [hcode] at hhid'
      exact hactions.1 (List.mem_map.mpr ⟨w', hw', Consumer.fromName_inj hhid' hhid⟩)
    · rw [List.mem_cons, hmem]
      constructor
      · rintro (heq | ⟨w', hw', h⟩)
        · obtain ⟨rfl, rfl⟩ := Prod.mk.inj heq
          exact ⟨w, by simp, hhid, hp⟩
        · exact ⟨w', by simp [hw'], h⟩
      · rintro ⟨w', hw', hhid', hp'⟩
        rcases List.mem_cons.mp hw' with rfl | hw'
        · rw [hhid, Option.some.injEq] at hhid'
          rw [hp, Except.ok.injEq] at hp'
          exact .inl (by rw [hhid', hp'])
        · exact .inr ⟨w', hw', hhid', hp'⟩

/-- Entries that are understood and have different keys are all kept. -/
theorem kept_written {e : KeyEntries} {rules : List Rule} (doc : Toml.Table)
    (hrules : e.rules.map (fun r => Rule.parse r.trigger r.action) = rules.map .ok)
    (htriggers : (e.rules.map fun r => trim r.trigger).Nodup)
    (hways : ∀ w ∈ e.ways, ∃ hid p, Consumer.fromName w.action = some hid
      ∧ Perform.parse w.way = .ok p)
    (hactions : (e.ways.map (·.action)).Nodup) : Kept doc e (written doc e) := by
  -- what is parsed is what was written, each table perhaps in another order
  obtain ⟨capture, capture', perform, perform', hcapture, hperform, hparse⟩ :=
    parse_written doc e
  obtain rfl := hcapture.same (by rw [rulePairs, List.map_map]; exact htriggers)
  obtain ⟨hfilter, hsome⟩ := filterMap_rulePairs hrules
  -- an action that is known has no blanks around it
  have hname : ∀ w ∈ e.ways, trim w.action = w.action := fun w hw =>
    let ⟨_, _, hhid, _⟩ := hways w hw
    Consumer.trim_of_fromName hhid
  obtain rfl := hperform.same (by
    rw [wayPairs, List.map_map]
    exact (List.map_congr_left hname).symm ▸ hactions)
  -- line by line over the rules, none of which is a problem
  obtain ⟨problems, hlines, hnone⟩ := captureLines capture' ({}, [])
  obtain rfl := hnone fun pair hpair => hsome pair (hcapture.perm.subset hpair)
  have hwaySome : ∀ pair ∈ e.wayPairs, (wayOf pair).isSome := by
    intro pair hpair
    obtain ⟨w, hw, rfl⟩ := List.mem_map.mp hpair
    obtain ⟨hid, p, hhid, hp⟩ := hways w hw
    rw [wayOf_trim hhid hp]
    rfl
  -- and over the ways
  obtain ⟨problems, hlines', hnone'⟩ := performLines perform'
    ({ rules := [] ++ capture'.filterMap ruleOf, perform := ∅ }, [])
  obtain rfl := hnone' fun pair hpair => hwaySome pair (hperform.perm.subset hpair)
  rw [hlines] at hparse
  have hparse := hparse.trans hlines'
  obtain ⟨hlen, hnodup, hmem⟩ := filterMap_wayPairs hways hactions
  have hperm := hperform.perm.filterMap wayOf
  obtain ⟨hcounted, hget⟩ := foldl_put_spec (m := (∅ : Dict Nat Perform))
    ((hperm.map (·.1)).nodup_iff.mpr hnodup) (by simp)
  -- no problems, the rules, the ways, their number, and the rest of the document
  refine ⟨by rw [hparse]; rfl, ⟨rules, hrules, ?_⟩, hways, fun hid p => ?_, ?_, ?_⟩
  · rw [hparse]
    show (([] : List Rule) ++ capture'.filterMap ruleOf).Perm rules
    rw [List.nil_append, ← hfilter]
    exact hcapture.perm.filterMap ruleOf
  · rw [hparse]
    dsimp only
    rw [hget, hperm.mem_iff, ← hmem hid p]
    exact ⟨fun h => h.resolve_right (by simp), .inl⟩
  · rw [hparse]
    dsimp only
    rw [hcounted, hperm.length_eq]
    exact (Nat.zero_add _).trans hlen
  · intro name hcaptureName hperformName
    unfold written
    rw [get?_putTexts_of_ne hperformName, get?_putTexts_of_ne hcaptureName]

/-! ## The check

The form is accepted when every entry can be read and none repeats another; and then all of it is
kept. The check compares what the fields spell, which is stricter than what they mean. -/

/-- The rules pass the check if and only if each is read and no combination comes twice. -/
theorem checkRules_ok_iff {l : List RuleEntry} {seen : List (ModMask × Nat)} :
    checkRules seen l = .ok () ↔ ∃ rules : List Rule,
      l.map (fun r => Rule.parse r.trigger r.action) = rules.map .ok
        ∧ (rules.map Rule.combination).Nodup ∧ ∀ rule ∈ rules, rule.combination ∉ seen := by
  induction l generalizing seen with
  | nil =>
    refine ⟨fun _ => ⟨[], rfl, by simp, by simp⟩, fun _ => rfl⟩
  | cons r l ih =>
    unfold checkRules
    constructor
    · intro h
      split at h
      · cases h
      · next rule hparse =>
        split at h
        · cases h
        · next hunseen =>
          obtain ⟨rules, hrules, hnodup, hnew⟩ := ih.mp h
          refine ⟨rule :: rules, by rw [List.map_cons, hparse, hrules]; rfl, ?_, ?_⟩
          · rw [List.map_cons, List.nodup_cons]
            refine ⟨fun hmem => ?_, hnodup⟩
            obtain ⟨rule', hrule', heq⟩ := List.mem_map.mp hmem
            exact hnew rule' hrule' (by simp [heq])
          · intro rule' hrule'
            rcases List.mem_cons.mp hrule' with rfl | hrule'
            · exact hunseen
            · exact fun h => hnew rule' hrule' (List.mem_cons_of_mem _ h)
    · rintro ⟨_ | ⟨rule, rules⟩, hrules, hnodup, hnew⟩
      · cases hrules
      rw [List.map_cons, List.map_cons, List.cons.injEq] at hrules
      rw [List.map_cons, List.nodup_cons] at hnodup
      rw [hrules.1]
      dsimp only
      rw [if_neg (hnew rule (by simp)), ih]
      refine ⟨rules, hrules.2, hnodup.2, fun rule' hrule' h => ?_⟩
      rcases List.mem_cons.mp h with heq | h
      · exact hnodup.1 (heq ▸ List.mem_map_of_mem hrule')
      · exact hnew rule' (List.mem_cons_of_mem _ hrule') h

/-- The ways pass if and only if each is read and no action comes twice, as it is spelled. -/
theorem checkWays_ok_iff {l : List WayEntry} {seen : List String} :
    checkWays seen l = .ok () ↔ (∀ w ∈ l, ∃ hid p, Consumer.fromName w.action = some hid
        ∧ Perform.parse w.way = .ok p)
      ∧ (l.map (·.action)).Nodup ∧ ∀ w ∈ l, w.action ∉ seen := by
  induction l generalizing seen with
  | nil => exact ⟨fun _ => ⟨by simp, by simp, by simp⟩, fun _ => rfl⟩
  | cons w l ih =>
    unfold checkWays
    constructor
    · intro h
      split_ifs at h with hname hseen
      split at h
      · cases h
      · next p hp =>
        obtain ⟨hways, hnodup, hnew⟩ := ih.mp h
        obtain ⟨hid, hhid⟩ := Option.ne_none_iff_exists'.mp
          (fun hnone => hname (Option.isNone_iff_eq_none.mpr hnone))
        refine ⟨fun w' hw' => ?_, ?_, fun w' hw' => ?_⟩
        · rcases List.mem_cons.mp hw' with rfl | hw'
          · exact ⟨hid, p, hhid, hp⟩
          · exact hways w' hw'
        · rw [List.map_cons, List.nodup_cons]
          refine ⟨fun hmem => ?_, hnodup⟩
          obtain ⟨w', hw', heq⟩ := List.mem_map.mp hmem
          exact hnew w' hw' (by simp [heq])
        · rcases List.mem_cons.mp hw' with rfl | hw'
          · exact hseen
          · exact fun h => hnew w' hw' (List.mem_cons_of_mem _ h)
    · rintro ⟨hways, hnodup, hnew⟩
      obtain ⟨hid, p, hhid, hp⟩ := hways w (by simp)
      rw [List.map_cons, List.nodup_cons] at hnodup
      rw [hhid, hp]
      dsimp only
      rw [if_neg (by simp), if_neg (hnew w (by simp)), ih]
      refine ⟨fun w' hw' => hways w' (List.mem_cons_of_mem _ hw'), hnodup.2, fun w' hw' h => ?_⟩
      rcases List.mem_cons.mp h with heq | h
      · exact hnodup.1 (heq ▸ List.mem_map_of_mem hw')
      · exact hnew w' (List.mem_cons_of_mem _ hw') h

/-- The whole check, with nothing said of the order in which it looks. -/
theorem check_ok_iff {e : KeyEntries} : e.check = .ok () ↔
    (∃ rules : List Rule, e.rules.map (fun r => Rule.parse r.trigger r.action) = rules.map .ok
        ∧ (rules.map Rule.combination).Nodup)
      ∧ (∀ w ∈ e.ways, ∃ hid p, Consumer.fromName w.action = some hid
        ∧ Perform.parse w.way = .ok p) ∧ (e.ways.map (·.action)).Nodup := by
  unfold check
  constructor
  · intro h
    split at h
    · cases h
    · next hrules =>
      obtain ⟨rules, hparsed, hnodup, -⟩ := checkRules_ok_iff.mp hrules
      obtain ⟨hways, hactions, -⟩ := checkWays_ok_iff.mp h
      exact ⟨⟨rules, hparsed, hnodup⟩, hways, hactions⟩
  · rintro ⟨⟨rules, hparsed, hnodup⟩, hways, hactions⟩
    rw [checkRules_ok_iff.mpr ⟨rules, hparsed, hnodup, by simp⟩]
    exact checkWays_ok_iff.mpr ⟨hways, hactions, by simp⟩

/-- One spelling stands for one combination. -/
theorem combination_of_trim {r r' : RuleEntry} {rule rule' : Rule}
    (htrim : trim r.trigger = trim r'.trigger) (h : Rule.parse r.trigger r.action = .ok rule)
    (h' : Rule.parse r'.trigger r'.action = .ok rule') : rule.combination = rule'.combination := by
  have hparts : Rule.parts r.trigger = Rule.parts r'.trigger := by
    rw [← Rule.parts_trim, htrim, Rule.parts_trim]
  have hscan := Rule.scanParts_of_parse h
  have hscan' := Rule.scanParts_of_parse h'
  rw [hparts] at hscan
  have heq := (Rule.scanParts_trigger hscan).symm.trans hscan'
  simp only [Except.ok.injEq, Prod.mk.injEq, Option.some.injEq] at heq
  exact Prod.ext heq.1 heq.2

/-- Every rule read comes from an entry. -/
theorem exists_entry_of_mem {l : List RuleEntry} {rules : List Rule} {rule : Rule}
    (hrules : l.map (fun r => Rule.parse r.trigger r.action) = rules.map .ok) (h : rule ∈ rules) :
    ∃ r ∈ l, Rule.parse r.trigger r.action = .ok rule := by
  have hmem : Except.ok rule ∈ l.map fun r => Rule.parse r.trigger r.action := by
    rw [hrules]
    exact List.mem_map_of_mem h
  exact List.mem_map.mp hmem

/-- Every entry gives a rule. -/
theorem exists_rule_of_mem {l : List RuleEntry} {rules : List Rule} {r : RuleEntry}
    (hrules : l.map (fun r => Rule.parse r.trigger r.action) = rules.map .ok) (h : r ∈ l) :
    ∃ rule ∈ rules, Rule.parse r.trigger r.action = .ok rule := by
  have hmem : Rule.parse r.trigger r.action ∈ rules.map Except.ok := by
    rw [← hrules]
    exact List.mem_map.mpr ⟨r, h, rfl⟩
  obtain ⟨rule, hrule, heq⟩ := List.mem_map.mp hmem
  exact ⟨rule, hrule, heq.symm⟩

/-- Rules for different combinations have different keys. -/
theorem triggers_nodup {l : List RuleEntry} {rules : List Rule}
    (hrules : l.map (fun r => Rule.parse r.trigger r.action) = rules.map .ok)
    (hnodup : (rules.map Rule.combination).Nodup) : (l.map fun r => trim r.trigger).Nodup := by
  induction l generalizing rules with
  | nil => simp
  | cons r l ih =>
    obtain _ | ⟨rule, rules⟩ := rules
    · cases hrules
    rw [List.map_cons, List.map_cons, List.cons.injEq] at hrules
    rw [List.map_cons, List.nodup_cons] at hnodup ⊢
    refine ⟨fun hmem => ?_, ih hrules.2 hnodup.2⟩
    obtain ⟨r', hr', htrim⟩ := List.mem_map.mp hmem
    obtain ⟨rule', hrule', hparse'⟩ := exists_rule_of_mem hrules.2 hr'
    exact hnodup.1 (List.mem_map.mpr ⟨rule', hrule', combination_of_trim htrim hparse' hrules.1⟩)

/-- Rules with different keys are for different combinations, if none is spelled in two ways. -/
theorem combinations_nodup {l : List RuleEntry} {rules : List Rule}
    (hrules : l.map (fun r => Rule.parse r.trigger r.action) = rules.map .ok)
    (hnodup : (l.map fun r => trim r.trigger).Nodup)
    (honce : ∀ r ∈ l, ∀ r' ∈ l, trim r.trigger ≠ trim r'.trigger → ∀ rule rule',
      Rule.parse r.trigger r.action = .ok rule → Rule.parse r'.trigger r'.action = .ok rule' →
      rule.combination ≠ rule'.combination) : (rules.map Rule.combination).Nodup := by
  induction l generalizing rules with
  | nil =>
    obtain rfl : rules = [] := by simpa using hrules.symm
    simp
  | cons r l ih =>
    obtain _ | ⟨rule, rules⟩ := rules
    · cases hrules
    rw [List.map_cons, List.map_cons, List.cons.injEq] at hrules
    rw [List.map_cons, List.nodup_cons] at hnodup ⊢
    refine ⟨fun hmem => ?_, ih hrules.2 hnodup.2 fun r₁ h₁ r₂ h₂ =>
      honce r₁ (List.mem_cons_of_mem _ h₁) r₂ (List.mem_cons_of_mem _ h₂)⟩
    obtain ⟨rule', hrule', heq⟩ := List.mem_map.mp hmem
    obtain ⟨r', hr', hparse'⟩ := exists_entry_of_mem hrules.2 hrule'
    refine honce r (by simp) r' (List.mem_cons_of_mem _ hr') (fun htrim => ?_) rule rule' hrules.1
      hparse' heq.symm
    exact hnodup.1 (List.mem_map.mpr ⟨r', hr', htrim.symm⟩)

/-- A document that keeps all the rules has a key for each. -/
theorem Kept.triggers_nodup {doc : Toml.Table} {e : KeyEntries} (h : e.Kept doc (written doc e)) :
    (e.rules.map fun r => trim r.trigger).Nodup ∧ (e.ways.map (·.action)).Nodup := by
  obtain ⟨capture, capture', perform, perform', hcapture, hperform, hparse⟩ :=
    parse_written doc e
  obtain ⟨problems, hlines, -⟩ := captureLines capture' ({}, [])
  obtain ⟨problems', hlines', -⟩ := performLines perform'
    ({ rules := [] ++ capture'.filterMap ruleOf, perform := ∅ }, [] ++ problems)
  rw [hlines] at hparse
  have hparse := hparse.trans hlines'
  constructor
  · by_contra hnot
    obtain ⟨rules, hrules, hperm⟩ := h.rules
    rw [hparse] at hperm
    have hlen : (capture'.filterMap ruleOf).length = rules.length := hperm.length_eq
    have hrulesLen : e.rules.length = rules.length := by simpa using congrArg List.length hrules
    have hless := hcapture.less (by rw [rulePairs, List.map_map]; exact hnot)
    have hle := List.length_filterMap_le ruleOf capture'
    have hsame := hcapture.perm.length_eq
    rw [rulePairs, List.length_map] at hless
    omega
  · by_contra hnot
    have hname : ∀ w ∈ e.ways, trim w.action = w.action := fun w hw =>
      let ⟨_, _, hhid, _⟩ := h.understood w hw
      Consumer.trim_of_fromName hhid
    have hcounted := h.counted
    rw [hparse] at hcounted
    dsimp only at hcounted
    have hput := length_foldl_put_le (perform'.filterMap wayOf) (∅ : Dict Nat Perform)
    have hless := hperform.less (by
      rw [wayPairs, List.map_map]
      exact (List.map_congr_left hname).symm ▸ hnot)
    have hle := List.length_filterMap_le wayOf perform'
    have hsame := hperform.perm.length_eq
    have hempty : (∅ : Dict Nat Perform).entries.length = 0 := rfl
    rw [wayPairs, List.length_map] at hless
    omega

end KeyEntries

open KeyEntries in
/-- **The special keys are saved**: entries that pass the check are kept, all of them and nothing
else; those that are refused would be kept just if a combination spelled in two ways is all there is
against them. -/
theorem keys_saved (doc : Toml.Table) (e : KeyEntries) :
    (e.check = .ok () → ∃ doc', KeyEntries.edited doc e = .ok doc' ∧ e.Kept doc doc')
      ∧ (e.check ≠ .ok () → (e.Kept doc (written doc e) ↔ e.OnlySpelledTwice)) := by
  refine ⟨fun hcheck => ?_, fun hrefused => ⟨fun hkept => ?_, fun h => ?_⟩⟩
  · obtain ⟨⟨rules, hrules, hnodup⟩, hways, hactions⟩ := check_ok_iff.mp hcheck
    refine ⟨written doc e, by rw [KeyEntries.edited, hcheck], ?_⟩
    exact kept_written doc hrules (KeyEntries.triggers_nodup hrules hnodup) hways hactions
  · obtain ⟨htriggers, hactions⟩ := hkept.triggers_nodup
    obtain ⟨rules, hrules, -⟩ := hkept.rules
    refine ⟨?_, ⟨rules, hrules⟩, htriggers, hkept.understood, hactions⟩
    by_contra hspelled
    refine hrefused (check_ok_iff.mpr ⟨⟨rules, hrules, ?_⟩, hkept.understood, hactions⟩)
    refine combinations_nodup hrules htriggers ?_
    intro r hr r' hr' htrim rule rule' h h' heq
    exact hspelled ⟨r, hr, r', hr', htrim, rule, rule', h, h', heq⟩
  · obtain ⟨rules, hrules⟩ := h.rules
    exact kept_written doc hrules h.triggers h.understood h.actions

/-- Two spellings of one combination. -/
def twoSpellings : KeyEntries where
  rules := [⟨"ctrl+f5", "mute"⟩, ⟨"control+F5", "mail"⟩]

open KeyEntries in
/-- They are refused, and saving them would keep both. -/
theorem two_spellings_refused : ¬ ∀ (doc : Toml.Table) (e : KeyEntries), e.check ≠ .ok () →
    ¬e.Kept doc (written doc e) := by
  intro hall
  have hrules : twoSpellings.rules.map (fun r => Rule.parse r.trigger r.action)
      = ([⟨.CONTROL, 0x3E, Consumer.MUTE⟩, ⟨.CONTROL, 0x3E, Consumer.MAIL⟩]
        : List Rule).map .ok := by
    decide
  refine hall [] twoSpellings (by decide) ?_
  exact kept_written [] hrules (by decide) (by simp [twoSpellings]) (by simp [twoSpellings])

end GeserDesk
