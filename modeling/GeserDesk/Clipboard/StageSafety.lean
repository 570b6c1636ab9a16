import GeserDesk.Clipboard.Pull

/-!
# What is staged is safe

The paths that `geserdesk-clipboard/src/stage.rs` lets through, whoever wrote the manifest, are to
be below the destination, with names that are names on Linux and on Windows, and no two of them one
file where case is ignored.

Two names are one, ignoring case, if their letters fold to the same. The checks compare
`str::to_lowercase` instead, which goes letter by letter too, but for a capital sigma: at the end of
a word it writes that as the final one. The tables of letters are Unicode's (`Casing`).

Windows takes more names for devices than the checks know: it leaves out the blanks before the first
dot, and has six ports with a raised digit and the two ends of the console (`ReservedOnWindows`).

* **`staging_safe`**: a manifest that passes is safe exactly if none of its names is a device the
  checks do not know and no two of its paths are one by folding and two in small letters; a
  manifest that does not pass leaves the disk alone.
* **`final_sigma_passes`**: two paths that are one, ignoring case.
-/

namespace GeserDesk

/-! ## Case

Small letters as the standard library makes them: letter by letter, except for the sigma at the
end of a word. -/

/-- Unicode's tables of letters: those that `str::to_lowercase` looks up, and `fold`, which is one
for all the cases of a letter. -/
structure Casing where
  lower : Char → List Char
  cased : Char → Bool
  caseIgnorable : Char → Bool
  fold : Char → List Char

namespace Casing

/-- The next character that is not ignorable is a letter with case. -/
def thenCased (u : Casing) (l : List Char) : Bool :=
  (l.dropWhile u.caseIgnorable).head?.any u.cased

/-- The small letters of a text, from the characters before it (the last one first). -/
def smallFrom (u : Casing) : List Char → List Char → List Char
  | _, [] => []
  | before, c :: after =>
    (if c = 'Σ' then
      if u.thenCased before && !u.thenCased after then ['ς'] else ['σ']
    else u.lower c) ++ u.smallFrom (c :: before) after

/-- `str::to_lowercase`. -/
def toLowercase (u : Casing) (s : String) : String := String.ofList (u.smallFrom [] s.toList)

/-- A name with the case of its letters left out. -/
def letters (u : Casing) (name : String) : List Char := name.toList.flatMap u.fold

end Casing

/-! ## Names Windows keeps for devices

The names that are devices wherever they stand, whatever follows the first dot. The list in the
code misses some of them, which `MissedDevice` collects. -/

/-- The devices that are not listed: the ports whose digit is a raised one, which Windows takes for
the digit, and the two ends of the console. -/
def UNLISTED_DEVICES : List String :=
  ["COM¹", "COM²", "COM³", "LPT¹", "LPT²", "LPT³", "CONIN$", "CONOUT$"]

/-- What Windows reads as the device's name: a name up to its first dot or colon, less the blanks at
the end of that. -/
def deviceStem (name : String) : String :=
  String.ofList ((name.toList.takeWhile fun c => c ≠ '.' ∧ c ≠ ':').rdropWhile (· = ' '))

/-- A device's name, whatever the extension. -/
def ReservedOnWindows (name : String) : Prop :=
  ∃ r ∈ WINDOWS_RESERVED ++ UNLISTED_DEVICES, eqIgnoreAsciiCase r (deviceStem name) = true

/-- A device's name that the checks do not know: a device that is not listed, or one that is, with
blanks between it and the dot. -/
def MissedDevice (name : String) : Prop :=
  (∃ r ∈ UNLISTED_DEVICES, eqIgnoreAsciiCase r (deviceStem name) = true)
    ∨ deviceStem name ≠ stem name
      ∧ ∃ r ∈ WINDOWS_RESERVED, eqIgnoreAsciiCase r (deviceStem name) = true

/-- A device name that the check misses is reserved. -/
theorem MissedDevice.reserved {name : String} (h : MissedDevice name) : ReservedOnWindows name := by
  rcases h with ⟨r, hr, hstem⟩ | ⟨-, r, hr, hstem⟩
  · exact ⟨r, List.mem_append_right _ hr, hstem⟩
  · exact ⟨r, List.mem_append_left _ hr, hstem⟩

/-- A device of Windows is one the checks know, or one they miss. -/
theorem ReservedOnWindows.missed {name : String} (h : ReservedOnWindows name)
    (hunlisted : ¬∃ r ∈ WINDOWS_RESERVED, eqIgnoreAsciiCase r (stem name) = true) :
    MissedDevice name := by
  obtain ⟨r, hr, hstem⟩ := h
  rcases List.mem_append.mp hr with hr | hr
  · refine .inr ⟨fun heq => hunlisted ⟨r, hr, heq ▸ hstem⟩, r, hr, hstem⟩
  · exact .inl ⟨r, hr, hstem⟩

/-- `con .txt` opens the console, and passes the checks. -/
example : MissedDevice "con .txt" ∧ pushPart ["in"] "con .txt" = .ok ["in", "con .txt"] :=
  ⟨.inr (by decide +kernel), by decide +kernel⟩

/-! ## Safe paths -/

/-- A name that is one component of a path on Linux and on Windows. -/
structure SafeName (name : String) : Prop where
  proper : name ≠ "" ∧ name ≠ "." ∧ name ≠ ".."
  chars : ∀ c ∈ name.toList, c ≠ '/' ∧ c ≠ '\\' ∧ c ≠ ':' ∧ isControl c = false
  ending : name.toList.getLast? ≠ some '.' ∧ name.toList.getLast? ≠ some ' '
  free : ¬ReservedOnWindows name

/-- Two paths are one where case is ignored. -/
def SamePath (u : Casing) (p q : List String) : Prop := p.map u.letters = q.map u.letters

structure SafePaths (u : Casing) (dest : List String) (paths : List (List String)) : Prop where
  below : ∀ path ∈ paths, ∃ parts, parts ≠ [] ∧ path = dest ++ parts
    ∧ ∀ part ∈ parts, SafeName part
  apart : paths.Pairwise fun p q => ¬SamePath u p q

/-! ## What the checks let through

From a manifest that passed to the names of its entries, one step for each check. -/

/-- A name that is put under a path is fit for it, but for a device that is missed. -/
theorem safeName_of_pushPart {out out' : List String} {part : String}
    (h : pushPart out part = .ok out') (hslash : '/' ∉ part.toList)
    (hdevice : ¬MissedDevice part) : SafeName part := by
  unfold pushPart at h
  split_ifs at h with hproper hchars hlen hending hreserved
  simp only [not_or] at hproper hending
  refine ⟨⟨by simpa using hproper.1, hproper.2.1, hproper.2.2⟩, fun c hc => ?_,
    ⟨hending.1, hending.2⟩, ?_⟩
  · have hc' : ¬(c = '\\' ∨ c = ':' ∨ isControl c = true) := fun hbad =>
      hchars (List.any_eq_true.mpr ⟨c, hc, by simpa using hbad⟩)
    simp only [not_or, Bool.not_eq_true] at hc'
    exact ⟨fun heq => hslash (heq ▸ hc), hc'⟩
  · exact fun hres => hdevice (hres.missed fun ⟨r, hr, hstem⟩ =>
      hreserved (List.any_eq_true.mpr ⟨r, hr, hstem⟩))

/-- Each part of an entry that passes was let through. -/
theorem pushPart_of_sanitizeOne {rel : String} {dest out : List String}
    (h : sanitizeOne rel dest = .ok out) :
    ∀ part ∈ pathParts rel, ∃ before after, pushPart before part = .ok after := by
  unfold sanitizeOne at h
  split at h
  · cases h
  · cases hfold : (pathParts rel).foldlM pushPart dest with
    | error e => rw [hfold] at h; cases h
    | ok out' => exact fun part hpart => exists_ok_of_foldlM hfold hpart

/-- Every entry of a manifest that passes passes by itself. -/
theorem sanitizeOne_of_manifest {toLowercase : String → String} {dest : List String}
    {entries : List FileEntry} {seen : List String} {out : List (List String)}
    (h : sanitizeManifest toLowercase dest seen entries = .ok out) :
    ∀ e ∈ entries, ∃ path, sanitizeOne e.path dest = .ok path := by
  induction entries generalizing seen out with
  | nil => simp
  | cons e entries ih =>
    unfold sanitizeManifest at h
    cases hone : sanitizeOne e.path dest with
    | error err => rw [hone] at h; cases h
    | ok path =>
      rw [hone] at h
      have h : (if toLowercase e.path ∈ seen then Except.error SanitizeError.duplicate
          else do
            let out ← sanitizeManifest toLowercase dest (toLowercase e.path :: seen) entries
            .ok (path :: out)) = .ok out := h
      split at h
      · cases h
      · cases hrest : sanitizeManifest toLowercase dest (toLowercase e.path :: seen) entries with
        | error err => rw [hrest] at h; cases h
        | ok rest =>
          intro e' he'
          rcases List.mem_cons.mp he' with rfl | he'
          · exact ⟨path, hone⟩
          · exact ih hrest e' he'

/-! ## Staging is safe

A manifest that passes, and has none of the names missed, is staged where no other program's file
is touched and no two entries meet. -/

/-- No name is a device the checks do not know. -/
def NoMissedDevice (m : FileManifest) : Prop :=
  ∀ e ∈ m.entries, ∀ part ∈ pathParts e.path, ¬MissedDevice part

/-- Two paths that are one by folding are one in small letters, final sigmas and all. -/
def SmallAgree (u : Casing) (m : FileManifest) : Prop :=
  m.entries.Pairwise fun e e' => SamePath u (pathParts e.path) (pathParts e'.path) →
    u.toLowercase e.path = u.toLowercase e'.path

/-- **The condition is exact**: what passes is safe just if it holds no name the check misses, and
no two names that are one to the disk. -/
theorem safePaths_iff {u : Casing} {dest : List String} {m : FileManifest}
    {paths : List (List String)}
    (h : sanitizeManifest u.toLowercase dest [] m.entries = .ok paths) :
    SafePaths u dest paths ↔ NoMissedDevice m ∧ SmallAgree u m := by
  obtain ⟨rfl, hnodup, -⟩ := sanitizeManifest_ok h
  have hapart : ∀ e e' : FileEntry,
      SamePath u (dest ++ pathParts e.path) (dest ++ pathParts e'.path)
        ↔ SamePath u (pathParts e.path) (pathParts e'.path) := by
    intro e e'
    unfold SamePath
    rw [List.map_append, List.map_append, List.append_cancel_left_eq]
  have hdistinct : m.entries.Pairwise fun e e' => u.toLowercase e.path ≠ u.toLowercase e'.path :=
    List.pairwise_map.mp hnodup
  constructor
  · rintro ⟨hbelow, hpairs⟩
    refine ⟨fun e he part hpart hdevice => ?_, ?_⟩
    · obtain ⟨parts, -, hparts, hsafe⟩ := hbelow _ (List.mem_map.mpr ⟨e, he, rfl⟩)
      rw [← List.append_cancel_left hparts] at hsafe
      exact (hsafe part hpart).free hdevice.reserved
    · rw [List.pairwise_map] at hpairs
      exact hpairs.imp fun hne hsame => absurd ((hapart _ _).mpr hsame) hne
  · rintro ⟨hdevices, hsmall⟩
    refine ⟨fun path hpath => ?_, ?_⟩
    · obtain ⟨e, he, rfl⟩ := List.mem_map.mp hpath
      refine ⟨pathParts e.path, pathParts_ne_nil _, rfl, fun part hpart => ?_⟩
      obtain ⟨out, hone⟩ := sanitizeOne_of_manifest h e he
      obtain ⟨before, after, hpush⟩ := pushPart_of_sanitizeOne hone part hpart
      have hslash : '/' ∉ part.toList := slash_notMem_pathParts e.path part hpart
      exact safeName_of_pushPart hpush hslash (hdevices e he part hpart)
    · rw [List.pairwise_map]
      refine (hdistinct.and hsmall).imp fun ⟨hne, hagree⟩ hsame => ?_
      exact hne (hagree ((hapart _ _).mp hsame))

/-- A pull whose manifest does not pass has created and removed nothing. -/
theorem pull_refused {σ : Type} {toLowercase : String → String} {m : FileManifest}
    {dest : List String} {e : SanitizeError} (options : PullOptions) (fetch : Fetch σ)
    (fs : FileStore String UInt8) (fetching : σ)
    (h : sanitizeManifest toLowercase dest [] m.entries = .error e) :
    (pullWithOptions toLowercase m dest options fetch fs fetching).1.fs = fs := by
  unfold pullWithOptions
  dsimp only
  split
  · rfl
  · rw [h]

/-- A manifest that passes has safe paths, and one that does not leaves the disk alone. -/
def StagedSafely (u : Casing) (dest : List String) (m : FileManifest) : Prop :=
  (∀ paths, sanitizeManifest u.toLowercase dest [] m.entries = .ok paths → SafePaths u dest paths)
    ∧ ∀ e, sanitizeManifest u.toLowercase dest [] m.entries = .error e →
      ∀ (σ : Type) (options : PullOptions) (fetch : Fetch σ) (fs : FileStore String UInt8)
        (fetching : σ), (pullWithOptions u.toLowercase m dest options fetch fs fetching).1.fs = fs

/-- **What is staged is safe** exactly if a manifest that passes has no name that is a device the
checks do not know and no two paths that are one by folding and two in small letters. -/
theorem staging_safe (u : Casing) (dest : List String) (m : FileManifest) :
    StagedSafely u dest m ↔ ∀ paths,
      sanitizeManifest u.toLowercase dest [] m.entries = .ok paths →
        NoMissedDevice m ∧ SmallAgree u m := by
  constructor
  · rintro ⟨hsafe, -⟩ paths hpaths
    exact (safePaths_iff hpaths).mp (hsafe paths hpaths)
  · intro h
    refine ⟨fun paths hpaths => (safePaths_iff hpaths).mpr (h paths hpaths), ?_⟩
    intro e he σ options fetch fs fetching
    exact pull_refused options fetch fs fetching he

/-- Of the tables, what two Greek letters need. -/
def greekCasing : Casing where
  lower c := if c = 'Α' then ['α'] else [c]
  cased c := decide (c ∈ ['Α', 'α', 'Σ', 'σ', 'ς'])
  caseIgnorable c := decide (c ∈ ['\'', '.', ':', '^'])
  fold c := if c = 'Α' then ['α'] else if c = 'Σ' ∨ c = 'ς' then ['σ'] else [c]

/-- One name in capitals and in small letters: its last sigma is written in two ways. -/
theorem final_sigma_passes : ¬ ∀ (u : Casing) (dest : List String) (m : FileManifest),
    StagedSafely u dest m := by
  intro hall
  let m : FileManifest := ⟨[⟨"ΑΣ", 1, false⟩, ⟨"ασ", 1, false⟩]⟩
  have hpasses : sanitizeManifest greekCasing.toLowercase ["in"] [] m.entries
      = .ok [["in", "ΑΣ"], ["in", "ασ"]] := by decide +kernel
  have hsafe := (hall greekCasing ["in"] m).1 _ hpasses
  have hdiffer := hsafe.apart
  simp only [List.pairwise_cons] at hdiffer
  have hsame : SamePath greekCasing ["in", "ΑΣ"] ["in", "ασ"] := by
    unfold SamePath
    decide +kernel
  exact hdiffer.1 ["in", "ασ"] (by simp) hsame

end GeserDesk
