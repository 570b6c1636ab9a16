import Mathlib.Data.List.Nodup
import GeserDesk.Lib.FoldM
import GeserDesk.Proto.Clipboard
import GeserDesk.Lib.Paths

/-!
# Where a manifest's entries go

`sanitize_one` and `sanitize_manifest` of `geserdesk-clipboard/src/stage.rs`: the paths of a
manifest are the other machine's own naming, resolved under a destination or refused. A path on
this machine is the list of its components. Lower-casing of text is a parameter: which texts it
makes equal is all that matters here.

* `sanitizeOne_pathOf`: a path all of whose names are portable resolves to itself under the
  destination.
* `sanitizeManifest_eq_ok`: and so does a whole manifest of them, if no two are equal once case is
  ignored.
-/

namespace GeserDesk

/-- Why a manifest, or one entry of it, cannot be staged. -/
inductive SanitizeError where
  | empty | escapes | reservedName | tooLong | duplicate
deriving DecidableEq, Repr

/-- Device names reserved on Windows, whatever the extension. -/
def WINDOWS_RESERVED : List String :=
  ["CON", "PRN", "AUX", "NUL", "COM1", "COM2", "COM3", "COM4", "COM5", "COM6", "COM7", "COM8",
    "COM9", "LPT1", "LPT2", "LPT3", "LPT4", "LPT5", "LPT6", "LPT7", "LPT8", "LPT9"]

/-- `str::eq_ignore_ascii_case`. -/
def eqIgnoreAsciiCase (s t : String) : Bool :=
  s.toList.map Char.toLower = t.toList.map Char.toLower

/-- A name up to its first dot. -/
def stem (part : String) : String := String.ofList (part.toList.takeWhile (· ≠ '.'))

/-- Put one name under a path, unless it is not fit to be one. -/
def pushPart (out : List String) (part : String) : Except SanitizeError (List String) :=
  if part.isEmpty ∨ part = "." ∨ part = ".." then .error .escapes
  else if part.toList.any fun c => c = '\\' ∨ c = ':' ∨ isControl c then .error .escapes
  else if 255 < part.utf8ByteSize then .error .tooLong
  else if part.toList.getLast? = some '.' ∨ part.toList.getLast? = some ' ' then
    .error .reservedName
  else if WINDOWS_RESERVED.any fun r => eqIgnoreAsciiCase r (stem part) then .error .reservedName
  else .ok (out ++ [part])

/-- Resolve a manifest's path under `dest`. -/
def sanitizeOne (rel : String) (dest : List String) : Except SanitizeError (List String) :=
  if rel.isEmpty then .error .empty
  else do
    let out ← (pathParts rel).foldlM pushPart dest
    if dest.isPrefixOf out then .ok out else .error .escapes

/-- Resolve every entry, in order. No two may be the same path once case is ignored. -/
def sanitizeManifest (toLowercase : String → String) (dest : List String) :
    List String → List FileEntry → Except SanitizeError (List (List String))
  | _, [] => .ok []
  | seen, entry :: rest => do
    let path ← sanitizeOne entry.path dest
    if toLowercase entry.path ∈ seen then .error .duplicate
    else
      let out ← sanitizeManifest toLowercase dest (toLowercase entry.path :: seen) rest
      .ok (path :: out)

/-! ## Names that pass

A path of portable names passes the checks part by part, and the whole manifest does when no two
entries share a path. -/

/-- A name that is one on every system: not empty, not a step up or in place, without separators
and control characters, of at most 255 bytes, not ending in a dot or a blank, and not a device. -/
def Portable (name : String) : Prop :=
  name ≠ "" ∧ name ≠ "." ∧ name ≠ ".."
    ∧ (∀ c ∈ name.toList, c ≠ '/' ∧ c ≠ '\\' ∧ c ≠ ':' ∧ isControl c = false)
    ∧ name.utf8ByteSize ≤ 255
    ∧ name.toList.getLast? ≠ some '.' ∧ name.toList.getLast? ≠ some ' '
    ∧ ∀ r ∈ WINDOWS_RESERVED, eqIgnoreAsciiCase r (stem name) = false

/-- The characters are gone through one by one. -/
instance : DecidablePred Portable := fun name =>
  letI : Decidable (∀ c ∈ name.toList, c ≠ '/' ∧ c ≠ '\\' ∧ c ≠ ':' ∧ isControl c = false) :=
    List.decidableBAll _ _
  inferInstanceAs (Decidable (_ ∧ _))

/-- A portable name is a single component. -/
theorem Portable.no_slash {name : String} (h : Portable name) : '/' ∉ name.toList :=
  fun hmem => (h.2.2.2.1 '/' hmem).1 rfl

/-- A portable name is pushed as it is. -/
theorem pushPart_eq_ok {name : String} (h : Portable name) (out : List String) :
    pushPart out name = .ok (out ++ [name]) := by
  obtain ⟨hempty, hdot, hdots, hchars, hlen, hlast, hblank, hdevice⟩ := h
  unfold pushPart
  have hany : (name.toList.any fun c => c = '\\' ∨ c = ':' ∨ isControl c) = false := by
    rw [List.any_eq_false]
    intro c hc
    obtain ⟨-, hback, hcolon, hcontrol⟩ := hchars c hc
    simp [hback, hcolon, hcontrol]
  have hres : (WINDOWS_RESERVED.any fun r => eqIgnoreAsciiCase r (stem name)) = false := by
    rw [List.any_eq_false]
    intro r hr
    rw [hdevice r hr]
    exact Bool.false_ne_true
  rw [if_neg (by simp [hempty, hdot, hdots]), hany, if_neg Bool.false_ne_true,
    if_neg (Nat.not_lt.mpr hlen), if_neg (by simp [hlast, hblank]), hres,
    if_neg Bool.false_ne_true]

/-- A list of portable names is pushed as it is. -/
theorem foldlM_pushPart {parts : List String} (h : ∀ part ∈ parts, Portable part)
    (out : List String) : parts.foldlM pushPart out = .ok (out ++ parts) := by
  induction parts generalizing out with
  | nil => exact congrArg Except.ok (List.append_nil out).symm
  | cons part parts ih =>
    rw [List.foldlM_cons, pushPart_eq_ok (h part List.mem_cons_self)]
    refine (ih (fun p hp => h p (List.mem_cons_of_mem part hp)) _).trans ?_
    rw [List.append_assoc]
    rfl

/-- Such a path is not empty. -/
theorem pathOf_ne_empty {parts : List String} (hne : parts ≠ [])
    (h : ∀ part ∈ parts, Portable part) : pathOf parts ≠ "" := by
  intro hempty
  have hparts := pathParts_pathOf hne fun part hpart => (h part hpart).no_slash
  rw [hempty] at hparts
  have hmem : "" ∈ parts := by
    rw [← hparts]
    exact List.mem_singleton.mpr rfl
  exact (h "" hmem).1 rfl

/-- A path of portable names resolves to these names under the destination. -/
theorem sanitizeOne_pathOf {parts : List String} (hne : parts ≠ [])
    (h : ∀ part ∈ parts, Portable part) (dest : List String) :
    sanitizeOne (pathOf parts) dest = .ok (dest ++ parts) := by
  have hfold : (pathParts (pathOf parts)).foldlM pushPart dest = .ok (dest ++ parts) := by
    rw [pathParts_pathOf hne fun part hpart => (h part hpart).no_slash]
    exact foldlM_pushPart h dest
  unfold sanitizeOne
  rw [if_neg (by simpa using pathOf_ne_empty hne h), hfold]
  exact if_pos (List.isPrefixOf_iff_prefix.mpr (List.prefix_append dest parts))

/-- A manifest of paths of portable names, no two equal once case is ignored, resolves entry by
entry. -/
theorem sanitizeManifest_eq_ok {toLowercase : String → String} {dest : List String}
    {entries : List FileEntry} {f : FileEntry → List String} {seen : List String}
    (hf : ∀ e ∈ entries, e.path = pathOf (f e) ∧ f e ≠ [] ∧ ∀ part ∈ f e, Portable part)
    (hnd : (entries.map fun e => toLowercase e.path).Nodup)
    (hseen : ∀ e ∈ entries, toLowercase e.path ∉ seen) :
    sanitizeManifest toLowercase dest seen entries = .ok (entries.map fun e => dest ++ f e) := by
  induction entries generalizing seen with
  | nil => rfl
  | cons e entries ih =>
    obtain ⟨hpath, hne, hportable⟩ := hf e List.mem_cons_self
    rw [List.map_cons, List.nodup_cons] at hnd
    have hone : sanitizeOne e.path dest = .ok (dest ++ f e) := by
      rw [hpath]
      exact sanitizeOne_pathOf hne hportable dest
    have hnext : ∀ e' ∈ entries, toLowercase e'.path ∉ toLowercase e.path :: seen := by
      intro e' he' hmem
      rcases List.mem_cons.mp hmem with heq | hmem
      · exact hnd.1 (heq ▸ List.mem_map_of_mem he')
      · exact hseen e' (List.mem_cons_of_mem e he') hmem
    have hrest : sanitizeManifest toLowercase dest (toLowercase e.path :: seen) entries = .ok _ :=
      ih (fun e' he' => hf e' (List.mem_cons_of_mem e he')) hnd.2 hnext
    unfold sanitizeManifest
    rw [hone]
    show (if toLowercase e.path ∈ seen then _ else _) = _
    rw [if_neg (hseen e List.mem_cons_self), hrest]
    rfl

/-! ## What passing says

The other way round: what passed lies under the destination, with no path twice. -/

/-- What is pushed is what was there and the parts. -/
theorem foldlM_pushPart_ok {parts : List String} {dest out : List String}
    (h : parts.foldlM pushPart dest = .ok out) : out = dest ++ parts := by
  induction parts generalizing dest with
  | nil =>
    obtain rfl : dest = out := Except.ok.inj h
    rw [List.append_nil]
  | cons part parts ih =>
    obtain ⟨dest', hpart, hrest⟩ := foldlM_cons_ok.mp h
    -- the only way out of the checks is with the name put under the path
    have hdest : dest' = dest ++ [part] := by
      unfold pushPart at hpart
      split_ifs at hpart
      exact (Except.ok.inj hpart).symm
    rw [ih hrest, hdest, List.append_assoc]
    rfl

/-- A path resolves, if at all, to its parts under the destination. -/
theorem sanitizeOne_ok {rel : String} {dest out : List String}
    (h : sanitizeOne rel dest = .ok out) : out = dest ++ pathParts rel := by
  unfold sanitizeOne at h
  split at h
  · cases h
  · cases hfold : (pathParts rel).foldlM pushPart dest with
    | error e =>
      rw [hfold] at h
      cases h
    | ok out' =>
      rw [hfold] at h
      have hout : (if dest.isPrefixOf out' then Except.ok out'
          else Except.error SanitizeError.escapes) = .ok out := h
      split at hout
      · rw [← Except.ok.inj hout]
        exact foldlM_pushPart_ok hfold
      · cases hout

/-- A manifest that passes is resolved entry by entry. -/
theorem sanitizeManifest_ok {toLowercase : String → String} {dest : List String}
    {entries : List FileEntry} {seen : List String} {out : List (List String)}
    (h : sanitizeManifest toLowercase dest seen entries = .ok out) :
    out = entries.map (fun e => dest ++ pathParts e.path)
      ∧ (entries.map fun e => toLowercase e.path).Nodup
      ∧ ∀ e ∈ entries, toLowercase e.path ∉ seen := by
  -- on the entries, with the names seen so far
  induction entries generalizing seen out with
  | nil => exact ⟨(Except.ok.inj h).symm, List.nodup_nil, nofun⟩
  | cons e entries ih =>
    unfold sanitizeManifest at h
    -- a name the loop refuses ends it
    cases hone : sanitizeOne e.path dest with
    | error err =>
      rw [hone] at h
      cases h
    | ok path =>
      rw [hone] at h
      have h : (if toLowercase e.path ∈ seen then Except.error SanitizeError.duplicate
          else do
            let out ← sanitizeManifest toLowercase dest (toLowercase e.path :: seen) entries
            .ok (path :: out)) = .ok out := h
      -- a name seen before ends it too
      by_cases hmem : toLowercase e.path ∈ seen
      · rw [if_pos hmem] at h
        cases h
      · rw [if_neg hmem] at h
        cases hrest : sanitizeManifest toLowercase dest (toLowercase e.path :: seen) entries with
        | error err =>
          rw [hrest] at h
          cases h
        | ok rest =>
          rw [hrest] at h
          obtain rfl : path :: rest = out := Except.ok.inj h
          obtain ⟨hout, hnodup, hunseen⟩ := ih hrest
          -- the entry's own path, and no name twice
          refine ⟨?_, ?_, ?_⟩
          · rw [List.map_cons, ← hout, sanitizeOne_ok hone]
          · rw [List.map_cons, List.nodup_cons]
            refine ⟨fun hdup => ?_, hnodup⟩
            obtain ⟨e', he', heq⟩ := List.mem_map.mp hdup
            exact hunseen e' he' (heq ▸ List.mem_cons_self)
          · intro e' he'
            rcases List.mem_cons.mp he' with rfl | he'
            · exact hmem
            · exact fun hseen => hunseen e' he' (List.mem_cons_of_mem _ hseen)

/-- No two entries of a manifest that passes resolve to the same path. -/
theorem sanitizeManifest_nodup {toLowercase : String → String} {dest : List String}
    {entries : List FileEntry} {seen : List String} {out : List (List String)}
    (h : sanitizeManifest toLowercase dest seen entries = .ok out) : out.Nodup := by
  obtain ⟨hout, hnodup, -⟩ := sanitizeManifest_ok h
  have hpaths : (entries.map FileEntry.path).Nodup := by
    refine List.Nodup.of_map toLowercase ?_
    rwa [List.map_map]
  have hinj : Function.Injective fun rel => dest ++ pathParts rel :=
    fun _ _ heq => pathParts_injective (List.append_cancel_left heq)
  have hmap := hpaths.map hinj
  rw [List.map_map] at hmap
  rw [hout]
  exact hmap

end GeserDesk
