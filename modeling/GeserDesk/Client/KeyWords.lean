import GeserDesk.Client.Inject
import GeserDesk.Proto.Input
import GeserDesk.Server.FingerprintText
import Mathlib.Data.List.Forall2

/-!
# The words of `keys.toml`

`geserdesk-proto/src/keys.rs` and the names of `consumer.rs`: a combination of keys, an action and
a way to perform one, from what a person writes. What the error messages add to their kind is left
out.

* **`Rule.parse_trim`**, **`Perform.parse_trim`**: blanks around what is written do not matter.
-/

namespace GeserDesk

namespace Consumer

/-- The names of the actions, as `keys.toml` writes them. -/
def ACTIONS : List (String × Nat) :=
  [("mute", MUTE), ("volume_up", VOLUME_UP), ("volume_down", VOLUME_DOWN), ("mic_mute", MIC_MUTE),
    ("play_pause", PLAY_PAUSE), ("next_track", NEXT_TRACK), ("previous_track", PREVIOUS_TRACK),
    ("stop", STOP), ("brightness_up", BRIGHTNESS_UP), ("brightness_down", BRIGHTNESS_DOWN),
    ("mail", MAIL), ("calculator", CALCULATOR), ("explorer", EXPLORER), ("browser", BROWSER),
    ("browser_search", BROWSER_SEARCH), ("browser_home", BROWSER_HOME),
    ("browser_back", BROWSER_BACK), ("browser_forward", BROWSER_FORWARD),
    ("browser_stop", BROWSER_STOP), ("browser_refresh", BROWSER_REFRESH),
    ("browser_favorites", BROWSER_FAVORITES)]

/-- The code of the action called `name`. -/
def fromName (name : String) : Option Nat := (ACTIONS.find? (·.1 = name)).map (·.2)

/-- A name that is found is in the table. -/
theorem mem_of_fromName {name : String} {hid : Nat} (h : fromName name = some hid) :
    (name, hid) ∈ ACTIONS := by
  obtain ⟨e, he, rfl⟩ := Option.map_eq_some_iff.mp h
  have hname : e.1 = name := by simpa using List.find?_some he
  rw [← hname]
  exact List.mem_of_find?_eq_some he

/-- Two actions have two codes. -/
theorem fromName_inj {name name' : String} {hid : Nat} (h : fromName name = some hid)
    (h' : fromName name' = some hid) : name = name' := by
  have hcodes : (ACTIONS.map (·.2)).Nodup := by decide
  exact congrArg Prod.fst
    (List.inj_on_of_nodup_map hcodes (mem_of_fromName h) (mem_of_fromName h') rfl)

/-- A name has no blanks around it. -/
theorem trim_of_fromName {name : String} {hid : Nat} (h : fromName name = some hid) :
    trim name = name := by
  have hnames : ∀ e ∈ ACTIONS, (e.1.toList.all fun c => !isWhitespace c) = true := by decide
  have hblank := hnames _ (mem_of_fromName h)
  rw [trim, trimText_eq_self fun c hc => by simpa using List.all_eq_true.mp hblank c hc,
    String.ofList_toList]

end Consumer

/-! ## Words

Cutting a text at a sign, and reading a number. -/

/-- Why a line cannot be understood. -/
inductive KeyError where
  | unknownAction (action : String)
  | unknownKey (part : List Char)
  | twoKeys (trigger : String)
  | noKey (trigger : String)
  | wayUnknown (text : List Char)
  | notANumber (rest : List Char)
deriving DecidableEq

/-- `str::split` at a character. -/
def splitAt (sep : Char) : List Char → List (List Char)
  | [] => [[]]
  | c :: cs =>
    if c = sep then [] :: splitAt sep cs
    else match splitAt sep cs with
      | part :: parts => (c :: part) :: parts
      | [] => [[c]]

/-- `str::split_once` at a character. -/
def splitOnce (sep : Char) : List Char → Option (List Char × List Char)
  | [] => none
  | c :: cs =>
    if c = sep then some ([], cs) else (splitOnce sep cs).map fun e => (c :: e.1, e.2)

/-- `to_ascii_lowercase`. -/
def lower (l : List Char) : List Char := l.map Char.toLower

/-- An unsigned number of the radix below `bound`, as `from_str_radix` reads it: a plus may stand
before it. -/
def parseUnsigned (radix bound : Nat) (text : List Char) : Option Nat :=
  let digits := match text with
    | '+' :: rest => rest
    | _ => text
  if digits.isEmpty then none
  else do
    let digits ← digits.mapM fun c => (hexDigit c).filter (· < radix)
    let n := digits.foldl (fun n d => n * radix + d) 0
    if n < bound then some n else none

/-- A decimal or `0x` number. -/
def number (text : List Char) : Option Nat :=
  match trimText text with
  | '0' :: 'x' :: hex | '0' :: 'X' :: hex => parseUnsigned 16 (2 ^ 32) (hex.filter (· ≠ '_'))
  | text => parseUnsigned 10 (2 ^ 32) text

/-! ## Keys

What stands in the capture table: a trigger with its modifiers, and an action or a key. -/

/-- The keys with names. -/
def keyNames : List (List String × Nat) :=
  [(["enter", "return"], 0x28), (["esc", "escape"], 0x29), (["backspace"], 0x2A), (["tab"], 0x2B),
    (["space"], 0x2C), (["printscreen", "prtsc"], 0x46), (["scrolllock"], 0x47), (["pause"], 0x48),
    (["insert", "ins"], 0x49), (["home"], 0x4A), (["pageup", "pgup"], 0x4B),
    (["delete", "del"], 0x4C), (["end"], 0x4D), (["pagedown", "pgdn"], 0x4E), (["right"], 0x4F),
    (["left"], 0x50), (["down"], 0x51), (["up"], 0x52)]

/-- The keyboard usage of a key called `name` (lower case). -/
def keyHid (name : List Char) : Option Nat :=
  match name with
  | 'h' :: 'i' :: 'd' :: ':' :: raw => (number raw).filter (· < 0x100)
  | _ =>
    match keyNames.find? fun e => e.1.any (·.toList = name) with
    | some e => some e.2
    | none =>
      match name with
      | [c] =>
        if 'a' ≤ c && c ≤ 'z' then some (0x04 + (c.toNat - 'a'.toNat))
        else if '1' ≤ c && c ≤ '9' then some (0x1E + (c.toNat - '1'.toNat))
        else if c = '0' then some 0x27
        else none
      | 'f' :: digits => do
        let n ← parseUnsigned 10 (2 ^ 16) digits
        if 1 ≤ n && n ≤ 12 then some (0x3A + (n - 1))
        else if 13 ≤ n && n ≤ 24 then some (0x68 + (n - 13))
        else none
      | _ => none

/-- A modifier's name. -/
def modifierOf (part : List Char) : Option ModMask :=
  let named (names : List String) : Bool := names.any (·.toList = part)
  if named ["ctrl", "control"] then some .CONTROL
  else if named ["alt"] then some .ALT
  else if named ["altgr"] then some .ALT_GR
  else if named ["shift"] then some .SHIFT
  else if named ["win", "super", "meta", "cmd"] then some .SUPER
  else none

namespace Rule

/-- The parts of a combination, without their blanks and in lower case. -/
def parts (trigger : String) : List (List Char) :=
  (splitAt '+' trigger.toList).map fun part => lower (trimText part)

/-- The modifiers and the key of a combination, from its parts. -/
def scanParts (trigger : String) :
    ModMask → Option Nat → List (List Char) → Except KeyError (ModMask × Option Nat)
  | mods, key, [] => .ok (mods, key)
  | mods, key, part :: rest =>
    match modifierOf part, key with
    | some bit, key => scanParts trigger ⟨mods.bits ||| bit.bits⟩ key rest
    | none, none =>
      match keyHid part with
      | some hid => scanParts trigger mods (some hid) rest
      | none => .error (.unknownKey part)
    | none, some _ => .error (.twoKeys trigger)

/-- `"ctrl+alt+f5"` and the action's name. -/
def parse (trigger action : String) : Except KeyError Rule :=
  match Consumer.fromName (trim action) with
  | none => .error (.unknownAction action)
  | some action =>
    match scanParts trigger .empty none (parts trigger) with
    | .error e => .error e
    | .ok (_, none) => .error (.noKey trigger)
    | .ok (mods, some hid) => .ok ⟨mods, hid, action⟩

end Rule

namespace Perform

/-- `"ignore"`, `"keysym:0x1008ff02"`, `"vk:0xB7"` or `"action:volume_up"`. -/
def parse (text : String) : Except KeyError Perform :=
  let text := trimText text.toList
  if lower text = "ignore".toList then .ok .ignore
  else match splitOnce ':' text with
    | none => .error (.wayUnknown text)
    | some (kind, rest) =>
      let rest := trimText rest
      let kind := lower (trimText kind)
      if kind = "keysym".toList then
        match number rest with
        | some v => .ok (.keysym v)
        | none => .error (.notANumber rest)
      else if kind = "vk".toList then
        match (number rest).filter fun v => 1 ≤ v && v ≤ 0xFE with
        | some v => .ok (.virtualKey v)
        | none => .error (.notANumber rest)
      else if kind = "action".toList then
        match Consumer.fromName (String.ofList rest) with
        | some hid => .ok (.action hid)
        | none => .error (.unknownAction (String.ofList rest))
      else .error (.wayUnknown kind)

end Perform

/-! ## Blanks

Blanks round a trigger or an action make no difference to what is read. -/

/-- Trimming takes blanks off both ends and nothing else. -/
theorem trimText_spec (l : List Char) : ∃ front back : List Char,
    l = front ++ trimText l ++ back ∧ (∀ c ∈ front, isWhitespace c = true)
      ∧ ∀ c ∈ back, isWhitespace c = true := by
  let kept := l.dropWhile isWhitespace
  refine ⟨l.takeWhile isWhitespace, (kept.reverse.takeWhile isWhitespace).reverse, ?_, ?_, ?_⟩
  · have hback : kept = trimText l ++ (kept.reverse.takeWhile isWhitespace).reverse := by
      rw [trimText, ← List.reverse_append, List.takeWhile_append_dropWhile, List.reverse_reverse]
    rw [List.append_assoc, ← hback]
    exact List.takeWhile_append_dropWhile.symm
  · exact fun c hc => List.mem_takeWhile_imp hc
  · exact fun c hc => List.mem_takeWhile_imp (List.mem_reverse.mp hc)

/-- Blanks in front are trimmed. -/
theorem trimText_append_left {front : List Char} (h : ∀ c ∈ front, isWhitespace c = true)
    (l : List Char) : trimText (front ++ l) = trimText l := by
  unfold trimText
  rw [List.dropWhile_append_of_pos h]

/-- Blanks at the back are trimmed. -/
theorem trimText_append_right {back : List Char} (h : ∀ c ∈ back, isWhitespace c = true)
    (l : List Char) : trimText (l ++ back) = trimText l := by
  have hback : back.dropWhile isWhitespace = [] := List.dropWhile_eq_nil_iff.mpr h
  unfold trimText
  rw [List.dropWhile_append]
  split
  · next hempty => rw [hback, List.isEmpty_iff.mp hempty]
  · rw [List.reverse_append, List.dropWhile_append_of_pos fun c hc => h c (List.mem_reverse.mp hc)]

/-- A second trim finds nothing more to take off. -/
@[simp] theorem trimText_trimText (l : List Char) : trimText (trimText l) = trimText l := by
  obtain ⟨front, back, hl, hfront, hback⟩ := trimText_spec l
  have h := trimText_append_left hfront (trimText l ++ back)
  rw [trimText_append_right hback, ← List.append_assoc, ← hl] at h
  exact h.symm

/-- Trimming a text is trimming its characters. -/
@[simp] theorem toList_trim (s : String) : (trim s).toList = trimText s.toList :=
  String.toList_ofList

/-- The same of a `String`. -/
@[simp] theorem trim_trim (s : String) : trim (trim s) = trim s := by
  rw [trim, toList_trim, trimText_trimText, trim]

/-- Splitting leaves at least one part. -/
theorem splitAt_ne_nil (sep : Char) (l : List Char) : splitAt sep l ≠ [] := by
  cases l with
  | nil => simp [splitAt]
  | cons c l =>
    unfold splitAt
    split
    · simp
    · split <;> simp

/-- What is put before is part of the first part. -/
theorem splitAt_append_left {sep : Char} {front : List Char} (h : sep ∉ front) (l : List Char) :
    ∃ part parts, splitAt sep l = part :: parts
      ∧ splitAt sep (front ++ l) = (front ++ part) :: parts := by
  obtain ⟨part, parts, hl⟩ := List.exists_cons_of_ne_nil (splitAt_ne_nil sep l)
  refine ⟨part, parts, hl, ?_⟩
  induction front with
  | nil => exact hl
  | cons c front ih =>
    rw [List.mem_cons, not_or] at h
    rw [List.cons_append, splitAt, if_neg (Ne.symm h.1), ih h.2]
    rfl

/-- What is put after is part of the last part. -/
theorem splitAt_append_right {sep : Char} {back : List Char} (h : sep ∉ back) (l : List Char) :
    List.Forall₂ (fun part part' => part' = part ∨ part' = part ++ back) (splitAt sep l)
      (splitAt sep (l ++ back)) := by
  induction l with
  | nil =>
    obtain ⟨part, parts, hnil, hback⟩ := splitAt_append_left h []
    cases hnil
    rw [List.append_nil] at hback
    rw [List.nil_append, hback]
    exact .cons (.inr rfl) .nil
  | cons c l ih =>
    rw [List.cons_append]
    unfold splitAt
    split
    · exact .cons (.inl rfl) ih
    · obtain ⟨part, parts, hl⟩ := List.exists_cons_of_ne_nil (splitAt_ne_nil sep l)
      obtain ⟨part', parts', hl'⟩ := List.exists_cons_of_ne_nil (splitAt_ne_nil sep (l ++ back))
      rw [hl, hl'] at ih ⊢
      obtain ⟨hpart, hparts⟩ := List.forall₂_cons.mp ih
      refine .cons ?_ hparts
      rcases hpart with rfl | rfl
      · exact .inl rfl
      · exact .inr rfl

/-- Blanks around a combination change none of its parts. -/
theorem Rule.parts_trim (trigger : String) : parts (trim trigger) = parts trigger := by
  have hplus : ∀ l : List Char, (∀ c ∈ l, isWhitespace c = true) → '+' ∉ l := by
    intro l hl hmem
    have hblank := hl '+' hmem
    revert hblank
    decide
  obtain ⟨front, back, hl, hfront, hback⟩ := trimText_spec trigger.toList
  -- what is around the combination is trimmed off its first and its last part
  obtain ⟨part, rest, hkept, hwhole⟩ :=
    splitAt_append_left (hplus front hfront) (trimText trigger.toList ++ back)
  have hmap : ∀ l l' : List (List Char),
      List.Forall₂ (fun part part' => part' = part ∨ part' = part ++ back) l l' →
      l.map (fun part => lower (trimText part)) = l'.map fun part => lower (trimText part) := by
    intro l l' h
    induction h with
    | nil => rfl
    | cons hpart _ ih =>
      rw [List.map_cons, List.map_cons, ih]
      rcases hpart with rfl | rfl
      · rfl
      · rw [trimText_append_right hback]
  unfold parts
  rw [toList_trim, hmap _ _ (splitAt_append_right (hplus back hback) _)]
  conv => rhs; rw [hl, List.append_assoc, hwhole]
  rw [hkept, List.map_cons, List.map_cons, trimText_append_left hfront]

/-- Whatever the trigger is called, its parts are read in the same way. -/
theorem Rule.scanParts_trigger {trigger trigger' : String} {mods : ModMask} {key : Option Nat}
    {l : List (List Char)} {r : ModMask × Option Nat}
    (h : scanParts trigger mods key l = .ok r) : scanParts trigger' mods key l = .ok r := by
  induction l generalizing mods key with
  | nil => exact h
  | cons part l ih =>
    unfold scanParts at h ⊢
    split at h
    · exact ih h
    · split at h
      · exact ih h
      · cases h
    · cases h

/-- What a rule says rests on the parts of its combination and on its action without blanks. -/
theorem Rule.parse_congr {trigger trigger' action action' : String} {rule : Rule}
    (hparts : parts trigger = parts trigger') (haction : trim action = trim action')
    (h : parse trigger action = .ok rule) : parse trigger' action' = .ok rule := by
  unfold parse at h ⊢
  rw [← haction]
  cases ha : Consumer.fromName (trim action) with
  | none => rw [ha] at h; cases h
  | some a =>
    simp only [ha] at h ⊢
    split at h
    · cases h
    · cases h
    · next mods hid hok =>
      rw [hparts] at hok
      rw [scanParts_trigger hok]
      exact h

/-- The combination of a rule is read from its parts. -/
theorem Rule.scanParts_of_parse {trigger action : String} {rule : Rule}
    (h : parse trigger action = .ok rule) :
    scanParts trigger .empty none (parts trigger) = .ok (rule.mods, some rule.hid) := by
  unfold parse at h
  split at h
  · cases h
  · split at h
    · cases h
    · cases h
    · next mods hid hok =>
      cases h
      exact hok

/-- **Blanks around a rule's words do not matter.** -/
theorem Rule.parse_trim {trigger action : String} {rule : Rule} :
    parse (trim trigger) (trim action) = .ok rule ↔ parse trigger action = .ok rule :=
  ⟨parse_congr (parts_trim trigger) (trim_trim action),
    parse_congr (parts_trim trigger).symm (trim_trim action).symm⟩

/-- **Blanks around a way's words do not matter.** -/
theorem Perform.parse_trim (text : String) : parse (trim text) = parse text := by
  unfold parse
  simp only [toList_trim, trimText_trimText]

end GeserDesk
