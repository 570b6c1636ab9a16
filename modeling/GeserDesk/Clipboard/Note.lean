import GeserDesk.Client.KeyWords
import GeserDesk.Clipboard.Pull

/-!
# Reading the note of a pulled folder

`read_note` of `geserdesk-clipboard/src/history.rs`, against `write_note` (`Clipboard/Pull.lean`): a
line for the peer, a line for the time, and one for each name at the top of the copy.

* **`readNote_writeNote`**: whatever the peer is called and the copied files are, what is read is
  what was written, with the line breaks of the names made blanks; no name is read as another line.
-/

namespace GeserDesk

/-- What the note in a pulled folder says. -/
structure StagedNote where
  peer : String := ""
  time : Nat := 0
  names : List String := []
deriving DecidableEq

/-- A line without the carriage return before its line feed. -/
def withoutReturn (line : List Char) : List Char :=
  if line.getLast? = some '\r' then line.dropLast else line

/-- `str::lines`. What follows the last line feed is a line if there is any. -/
def lines (text : List Char) : List (List Char) :=
  let parts := splitAt '\n' text
  parts.dropLast.map withoutReturn ++ (parts.getLast?.filter (· ≠ [])).toList

namespace StagedNote

/-- What a line adds. -/
def take (note : StagedNote) (line : List Char) : StagedNote :=
  match splitOnce ' ' line with
  | some (key, value) =>
    if key = "peer".toList then { note with peer := String.ofList value }
    else if key = "time".toList then { note with time := (parseUnsigned 10 (2 ^ 64) value).getD 0 }
    else if key = "name".toList then { note with names := note.names ++ [String.ofList value] }
    else note
  | none => note

def ofText (text : String) : StagedNote := (lines text.toList).foldl take {}

end StagedNote

/-- Read the note in `dir`, if there is one. -/
def readNote (fs : FileStore String UInt8) (dir : List String) : Option StagedNote :=
  match fs (dir ++ [NOTE]) with
  | some (.file bytes) => (String.fromUTF8? ⟨bytes.toArray⟩).map StagedNote.ofText
  | _ => none

/-! ## Lines

The note is written line by line, and a word with a blank behind it is the key of its line. -/

/-- A line is split off at its end. -/
theorem splitAt_line {line : List Char} (h : '\n' ∉ line) (rest : List Char) :
    splitAt '\n' (line ++ '\n' :: rest) = line :: splitAt '\n' rest := by
  obtain ⟨part, parts, hl, hfront⟩ := splitAt_append_left h ('\n' :: rest)
  rw [hfront]
  rw [splitAt, if_pos rfl] at hl
  obtain ⟨rfl, rfl⟩ := List.cons.inj hl
  rw [List.append_nil]

/-- A list of lines is split into its lines, with an empty one after the last. -/
theorem splitAt_lines {ls : List (List Char)} (h : ∀ line ∈ ls, '\n' ∉ line) :
    splitAt '\n' (ls.flatMap fun line => line ++ ['\n']) = ls ++ [[]] := by
  induction ls with
  | nil => rfl
  | cons line rest ih =>
    rw [List.flatMap_cons, List.append_assoc, List.singleton_append,
      splitAt_line (h line List.mem_cons_self), ih fun l hl => h l (List.mem_cons_of_mem _ hl)]
    rfl

/-- What is written line by line is read line by line. -/
theorem lines_of_lines {ls : List (List Char)} (h : ∀ line ∈ ls, '\n' ∉ line ∧ '\r' ∉ line) :
    lines (ls.flatMap fun line => line ++ ['\n']) = ls := by
  have hkept : ∀ line ∈ ls, withoutReturn line = line := by
    intro line hline
    refine if_neg fun hlast => (h line hline).2 (List.mem_of_getLast? hlast)
  unfold lines
  rw [splitAt_lines fun line hline => (h line hline).1]
  simp [List.map_congr_left hkept]

/-- A line is cut at its first blank. -/
theorem splitOnce_word (word : List Char) (h : ' ' ∉ word) (value : List Char) :
    splitOnce ' ' (word ++ ' ' :: value) = some (word, value) := by
  induction word with
  | nil => rfl
  | cons c word ih =>
    rw [List.mem_cons, not_or] at h
    rw [List.cons_append, splitOnce, if_neg (Ne.symm h.1), ih h.2]
    rfl

/-! ## Numbers -/

/-- A decimal digit is its value. -/
theorem hexDigit_digit {c : Char} (h : c.isDigit) :
    (hexDigit c).filter (· < 10) = some (c.toNat - '0'.toNat) := by
  rw [Char.isDigit, Bool.and_eq_true, decide_eq_true_eq, decide_eq_true_eq] at h
  have hc : '0' ≤ c ∧ c ≤ '9' := h
  have hle : c.toNat ≤ 57 := h.2
  have hlt : c.toNat - '0'.toNat < 10 := by
    have hzero : '0'.toNat = 48 := rfl
    omega
  unfold hexDigit
  rw [if_pos hc]
  simpa using hlt

/-- A number is read as it is printed. -/
theorem parseUnsigned_toDigits {n bound : Nat} (h : n < bound) :
    parseUnsigned 10 bound (Nat.toDigits 10 n) = some n := by
  have hdigits : ∀ c ∈ Nat.toDigits 10 n, c.isDigit := fun c hc =>
    Nat.isDigit_of_mem_toDigits (by decide) (by decide) hc
  have hplus : ∀ rest, Nat.toDigits 10 n ≠ '+' :: rest := by
    intro rest hrest
    have hdigit := hdigits '+' (by rw [hrest]; exact List.mem_cons_self)
    cases hdigit
  have hvalues : (Nat.toDigits 10 n).mapM (fun c => (hexDigit c).filter (· < 10))
      = some ((Nat.toDigits 10 n).map fun c => c.toNat - '0'.toNat) := by
    generalize Nat.toDigits 10 n = l at hdigits
    induction l with
    | nil => rfl
    | cons c rest ih =>
      rw [List.mapM_cons, hexDigit_digit (hdigits c List.mem_cons_self),
        ih fun d hd => hdigits d (List.mem_cons_of_mem _ hd)]
      rfl
  have hfold : ((Nat.toDigits 10 n).map fun c => c.toNat - '0'.toNat).foldl
      (fun n d => n * 10 + d) 0 = n := by
    have hof := Nat.ofDigitChars_ten_toDigits (n := n)
    rw [Nat.ofDigitChars_eq_foldl] at hof
    rw [List.foldl_map]
    simpa only [Nat.mul_comm] using hof
  unfold parseUnsigned
  split
  · next rest hrest => exact absurd hrest (hplus rest)
  · rw [if_neg (by simp [Nat.toDigits_ne_nil])]
    simp only [hvalues, Option.bind_eq_bind, Option.bind_some, hfold, if_pos h]

/-! ## The note

What is read from a note is what was written into it: the peer on one line, the time, and the
names at the top. -/

/-- The lines of a note. -/
def noteLines (peer : String) (time : Nat) (m : FileManifest) : List (List Char) :=
  ("peer ".toList ++ (oneLine peer).toList) :: ("time ".toList ++ Nat.toDigits 10 time)
    :: (topNames m).map fun name => "name ".toList ++ (oneLine name).toList

/-- The note is its lines, each ended. -/
theorem toList_noteText (peer : String) (time : Nat) (m : FileManifest) :
    (noteText peer time m).toList
      = (noteLines peer time m).flatMap fun line => line ++ ['\n'] := by
  have hnames : ∀ (names : List String) (text : String),
      (names.foldl (fun text name => text ++ "name " ++ oneLine name ++ "\n") text).toList
        = text.toList ++ (names.map fun name => "name ".toList ++ (oneLine name).toList).flatMap
          fun line => line ++ ['\n'] := by
    intro names
    induction names with
    | nil => simp
    | cons name rest ih =>
      intro text
      rw [List.foldl_cons, ih]
      simp [String.toList_append]
  unfold noteText noteLines
  rw [hnames]
  simp [String.toList_append]

/-- A text put on one line has no end of line in it. -/
theorem oneLine_line (text : String) : '\n' ∉ (oneLine text).toList ∧ '\r' ∉ (oneLine text).toList := by
  unfold oneLine
  rw [String.toList_map]
  constructor <;>
  · intro h
    obtain ⟨c, -, hc⟩ := List.mem_map.mp h
    split at hc
    · cases hc
    · next hno => simp [hc] at hno

/-- No line of the note has an end of line in it. -/
theorem noteLines_lines (peer : String) (time : Nat) (m : FileManifest) :
    ∀ line ∈ noteLines peer time m, '\n' ∉ line ∧ '\r' ∉ line := by
  have hpre : ∀ {front : List Char} {text : String}, '\n' ∉ front ∧ '\r' ∉ front →
      '\n' ∉ front ++ (oneLine text).toList ∧ '\r' ∉ front ++ (oneLine text).toList := by
    intro front text h
    have htext := oneLine_line text
    simp only [List.mem_append, not_or]
    exact ⟨⟨h.1, htext.1⟩, h.2, htext.2⟩
  intro line hline
  rcases List.mem_cons.mp hline with rfl | hline
  · exact hpre (by decide)
  rcases List.mem_cons.mp hline with rfl | hline
  · have hdigit : ∀ c ∈ Nat.toDigits 10 time, c.isDigit := fun c hc =>
      Nat.isDigit_of_mem_toDigits (by decide) (by decide) hc
    simp only [List.mem_append, not_or]
    exact ⟨⟨by decide, fun h => by cases hdigit _ h⟩, by decide, fun h => by cases hdigit _ h⟩
  · obtain ⟨name, -, rfl⟩ := List.mem_map.mp hline
    exact hpre (by decide)

/-- The line of the peer is read as the peer. -/
theorem take_peer (note : StagedNote) (text : String) :
    note.take ("peer ".toList ++ text.toList) = { note with peer := text } := by
  have hcut : splitOnce ' ' ("peer ".toList ++ text.toList) = some ("peer".toList, text.toList) :=
    splitOnce_word "peer".toList (by decide) _
  simp only [StagedNote.take, hcut, if_pos, String.ofList_toList]

/-- The line of the time is read as the time. -/
theorem take_time (note : StagedNote) {time : Nat} (h : time < 2 ^ 64) :
    note.take ("time ".toList ++ Nat.toDigits 10 time) = { note with time := time } := by
  have hcut : splitOnce ' ' ("time ".toList ++ Nat.toDigits 10 time)
      = some ("time".toList, Nat.toDigits 10 time) := splitOnce_word "time".toList (by decide) _
  have hread := parseUnsigned_toDigits h
  have hother : "time".toList ≠ "peer".toList := by decide
  simp only [StagedNote.take, hcut, if_neg hother, if_pos, hread, Option.getD_some]

/-- A line of a name is read as one name more. -/
theorem take_name (note : StagedNote) (text : String) :
    note.take ("name ".toList ++ text.toList) = { note with names := note.names ++ [text] } := by
  have hcut : splitOnce ' ' ("name ".toList ++ text.toList) = some ("name".toList, text.toList) :=
    splitOnce_word "name".toList (by decide) _
  have hpeer : "name".toList ≠ "peer".toList := by decide
  have htime : "name".toList ≠ "time".toList := by decide
  simp only [StagedNote.take, hcut, if_neg hpeer, if_neg htime, if_pos, String.ofList_toList]

/-- The lines of the names are read as the names, in order. -/
theorem foldl_take_names (names : List String) (note : StagedNote) :
    (names.map fun name => "name ".toList ++ (oneLine name).toList).foldl StagedNote.take note
      = { note with names := note.names ++ names.map oneLine } := by
  induction names generalizing note with
  | nil => simp
  | cons name rest ih =>
    rw [List.map_cons, List.foldl_cons, take_name, ih]
    simp

/-- What the text of a note says. -/
theorem ofText_noteText (peer : String) {time : Nat} (htime : time < 2 ^ 64) (m : FileManifest) :
    StagedNote.ofText (noteText peer time m)
      = { peer := oneLine peer, time := time, names := (topNames m).map oneLine } := by
  unfold StagedNote.ofText
  rw [toList_noteText, lines_of_lines (noteLines_lines peer time m)]
  unfold noteLines
  rw [List.foldl_cons, List.foldl_cons, take_peer, take_time _ htime, foldl_take_names]
  simp

/-- The note is written into the folder as a file. -/
theorem writeNote_eq {fs : FileStore String UInt8} {dest : List String} (peer : String) (time : Nat)
    (m : FileManifest) (hdest : fs dest = some .folder)
    (hnote : fs (dest ++ [NOTE]) ≠ some .folder) :
    writeNote fs dest peer time m
      = fs.put (dest ++ [NOTE]) (.file (noteText peer time m).toUTF8.data.toList) := by
  unfold writeNote
  rw [FileStore.write_new (by simpa using hdest) hnote, Option.getD_some]

/-- The note is found where it was written. -/
theorem readNote_put (fs : FileStore String UInt8) (dir : List String) (text : String) :
    readNote (fs.put (dir ++ [NOTE]) (.file text.toUTF8.data.toList)) dir
      = some (StagedNote.ofText text) := by
  have hbytes : (⟨text.toUTF8.data.toList.toArray⟩ : ByteArray) = text.toUTF8 := by simp
  have htext : String.fromUTF8? text.toUTF8 = some text := dif_pos text.isValidUTF8
  unfold readNote
  simp only [FileStore.put_self, hbytes, htext, Option.map_some]

/-- **The note is read as it was written**, in a folder that is there: who the files came from, when,
and the names at the top, each with its line breaks made blanks. -/
theorem readNote_writeNote {fs : FileStore String UInt8} {dest : List String} (peer : String)
    {time : Nat} (m : FileManifest) (hdest : fs dest = some .folder)
    (hnote : fs (dest ++ [NOTE]) ≠ some .folder) (htime : time < 2 ^ 64) :
    readNote (writeNote fs dest peer time m) dest
      = some { peer := oneLine peer, time := time, names := (topNames m).map oneLine } := by
  rw [writeNote_eq peer time m hdest hnote, readNote_put, ofText_noteText peer htime]

/-- A folder that is there, and empty. -/
def emptyFolder : FileStore String UInt8 := fun path =>
  if path = ["got"] then some .folder else none

/-- A peer that would forge the time of a copy of one file. -/
theorem readNote_writeNote_forged :
    readNote (writeNote emptyFolder ["got"] "desk\ntime 0" 1700000000 ⟨[⟨"a.txt", 3, false⟩]⟩)
      ["got"] = some { peer := "desk time 0", time := 1700000000, names := ["a.txt"] } := by
  have hdest : emptyFolder ["got"] = some .folder := rfl
  have hnote : emptyFolder (["got"] ++ [NOTE]) ≠ some .folder := nofun
  have hpeer : oneLine "desk\ntime 0" = "desk time 0" :=
    String.toList_inj.mp (by rw [oneLine, String.toList_map]; decide)
  have hname : oneLine "a.txt" = "a.txt" :=
    String.toList_inj.mp (by rw [oneLine, String.toList_map]; decide)
  have htop : topNames ⟨[⟨"a.txt", 3, false⟩]⟩ = ["a.txt"] := by decide
  rw [readNote_writeNote "desk\ntime 0" ⟨[⟨"a.txt", 3, false⟩]⟩ hdest hnote (by decide), hpeer, htop,
    List.map_singleton, hname]

end GeserDesk
