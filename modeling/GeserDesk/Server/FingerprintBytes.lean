import GeserDesk.Lib.Utf8
import GeserDesk.Server.FingerprintText

/-!
# Which texts are a fingerprint

`from_str` of `geserdesk-tls/src/fingerprint.rs`, byte by byte: a text is a slice of UTF-8, cut
after its seventh byte, and the digits are written into an array of 32 bytes. Cutting inside a
character, an odd digit and an index past the end would panic; none happens.

* **`fromStr_spec`**: what is read of a text, said of its characters.
* **`parseFingerprint_eq`**: the rest of the model reads a text as `from_str` does.
* **`fingerprint_grammar`**: the round trip, and the texts that are a fingerprint.
-/

namespace GeserDesk

namespace Fingerprint

/-- `[u8; 32]`. -/
abbrev Raw := Vector UInt8 32

/-- What `from_str` comes to. -/
inductive Parsed where
  | panicked
  | refused
  | read (fp : Raw)
deriving DecidableEq

/-- `(c as char).to_digit(16)`. -/
def byteDigit (c : UInt8) : Option Nat := hexDigit (Utf8.asChar c)

/-- The digits in pairs, each pair written at the next place of `out`. -/
def readPairs (out : Raw) (i : Nat) : List UInt8 → Parsed
  | [] => .read out
  | first :: rest =>
    match byteDigit first with
    | none => .refused
    | some high =>
      match rest with
      | [] => .panicked
      | second :: rest =>
        match byteDigit second with
        | none => .refused
        | some low =>
          if h : i < 32 then readPairs (out.set i (UInt8.ofNat (high * 16 + low))) (i + 1) rest
          else .panicked

/-- What follows the mark, where `s` starts with it; nothing where the slice panics. -/
def unmarked (s : List UInt8) : Option (List UInt8) :=
  match Utf8.getTo s 7 with
  | some mark =>
    if Utf8.eqIgnoreAsciiCase mark (Utf8.bytes "sha256:".toList) then Utf8.sliceFrom s 7 else some s
  | none => some s

/-- A byte that is neither a colon nor a blank. -/
def isText (b : UInt8) : Bool :=
  Utf8.asChar b ≠ ':' && !isAsciiWhitespace (Utf8.asChar b)

/-- `Fingerprint::from_str`. -/
def fromStr (s : String) : Parsed :=
  match unmarked (Utf8.bytes (trimText s.toList)) with
  | none => .panicked
  | some s =>
    let hex := s.filter isText
    if hex.length ≠ 64 then .refused else readPairs (Vector.replicate 32 0) 0 hex

/-- `{b:02x}`. -/
def hexByte (b : UInt8) : List Char := [hexChar (b.toNat / 16), hexChar (b.toNat % 16)]

/-- `Display`: a colon before every byte but the first. -/
def display (fp : Raw) : String :=
  String.ofList ("SHA256:".toList
    ++ fp.toList.zipIdx.flatMap fun e => (if 0 < e.2 then [':'] else []) ++ hexByte e.1)

/-! ## What a text spells -/

/-- The characters of a text after trimming, without one mark in any letter case, colons and
blanks. -/
def spelled (text : String) : List Char :=
  let s := trimText text.toList
  let s := if (s.take 7).map Char.toLower = "sha256:".toList then s.drop 7 else s
  s.filter fun c => c ≠ ':' && !isAsciiWhitespace c

/-- The bytes of digits taken two by two. -/
def pairBytes : List Nat → List UInt8
  | high :: low :: rest => UInt8.ofNat (high * 16 + low) :: pairBytes rest
  | _ => []

/-- A text spells 64 digits, and they are the bytes of `fp`. -/
def Spells (text : String) (fp : Raw) : Prop :=
  ∃ digits, (spelled text).mapM hexDigit = some digits ∧ digits.length = 64
    ∧ fp.toList = pairBytes digits

/-! ## Pairs of digits

Pairs of hexadecimal digits and the bytes they stand for. -/

/-- A list mapped throughout keeps its length. -/
theorem length_of_mapM {α β : Type} {f : α → Option β} {l : List α} {r : List β}
    (h : l.mapM f = some r) : r.length = l.length := by
  induction l generalizing r with
  | nil => cases h; rfl
  | cons a l ih =>
    rw [List.mapM_cons] at h
    obtain ⟨b, -, h⟩ := Option.bind_eq_some_iff.mp h
    obtain ⟨r', hr', h⟩ := Option.bind_eq_some_iff.mp h
    cases h
    rw [List.length_cons, List.length_cons, ih hr']

/-- As many pairs as there is place for: all of them are written, or a digit is wrong. -/
theorem readPairs_spec {k i : Nat} (hi : i + k = 32) {hex : List UInt8} (hlen : hex.length = 2 * k)
    (out : Raw) :
    (hex.mapM byteDigit = none ∧ readPairs out i hex = .refused)
    ∨ ∃ digits fp, hex.mapM byteDigit = some digits ∧ readPairs out i hex = .read fp
      ∧ fp.toList = out.toList.take i ++ pairBytes digits := by
  induction k generalizing i hex out with
  | zero =>
    have hnil : hex = [] := List.length_eq_zero_iff.mp hlen
    refine .inr ⟨[], out, by rw [hnil]; rfl, by rw [hnil]; rfl, ?_⟩
    have hfull : out.toList.length ≤ i := by rw [Vector.length_toList]; omega
    rw [List.take_of_length_le hfull]
    exact (List.append_nil _).symm
  | succ k ih =>
    match hex, hlen with
    | first :: second :: rest, hlen =>
      have hplace : i < 32 := by omega
      have hrest : rest.length = 2 * k := by simp only [List.length_cons] at hlen; omega
      rw [List.mapM_cons, List.mapM_cons, readPairs]
      cases byteDigit first with
      | none => exact .inl ⟨rfl, rfl⟩
      | some high =>
        dsimp only
        cases byteDigit second with
        | none => exact .inl ⟨rfl, rfl⟩
        | some low =>
          simp only [dif_pos hplace]
          have hstep := ih (i := i + 1) (by omega) hrest
            (out.set i (UInt8.ofNat (high * 16 + low)))
          rcases hstep with ⟨hnone, hrefused⟩ | ⟨digits, fp, hdigits, hread, hfp⟩
          · exact .inl ⟨by rw [hnone]; rfl, hrefused⟩
          · refine .inr ⟨high :: low :: digits, fp, by rw [hdigits]; rfl, hread, ?_⟩
            have hi' : i < out.toList.length := by rw [Vector.length_toList]; exact hplace
            rw [hfp, Vector.toList_set, List.take_succ_eq_append_getElem (by simpa using hi'),
              List.getElem_set_self, List.take_set_of_le (Nat.le_refl i), List.append_assoc]
            rfl

/-- A hex digit is below 16. -/
theorem digit_lt {c : Char} {d : Nat} (h : hexDigit c = some d) : d < 16 := by
  unfold hexDigit at h
  simp only [Char.le_def, UInt32.le_iff_toNat_le] at h
  split at h
  · next hc =>
    cases h
    have hhigh : c.toNat ≤ 57 := hc.2
    have hzero : '0'.toNat = 48 := rfl
    omega
  split at h
  · next hc =>
    cases h
    have hhigh : c.toNat ≤ 102 := hc.2
    have ha : 'a'.toNat = 97 := rfl
    omega
  split at h
  · next hc =>
    cases h
    have hhigh : c.toNat ≤ 70 := hc.2
    have ha : 'A'.toNat = 65 := rfl
    omega
  · cases h

/-- All digits that were read are below 16. -/
theorem lt_of_mapM_hexDigit {l : List Char} {digits : List Nat}
    (h : l.mapM hexDigit = some digits) : ∀ d ∈ digits, d < 16 := by
  induction l generalizing digits with
  | nil => cases h; intro d hd; cases hd
  | cons c l ih =>
    rw [List.mapM_cons] at h
    obtain ⟨d, hd, h⟩ := Option.bind_eq_some_iff.mp h
    obtain ⟨ds, hds, h⟩ := Option.bind_eq_some_iff.mp h
    cases h
    exact List.forall_mem_cons.mpr ⟨digit_lt hd, ih hds⟩

/-- Two digits make a byte. -/
theorem toNat_pair {high low : Nat} (hhigh : high < 16) (hlow : low < 16) :
    (UInt8.ofNat (high * 16 + low)).toNat = high * 16 + low := by
  apply UInt8.toNat_ofNat_of_lt'
  show high * 16 + low < 256
  omega

/-- The two digits of each byte. -/
def byteDigits (bs : List UInt8) : List Nat := bs.flatMap fun b => [b.toNat / 16, b.toNat % 16]

/-- Digits are known from the bytes they make. -/
theorem byteDigits_pairBytes {k : Nat} {digits : List Nat} (hlen : digits.length = 2 * k)
    (hlt : ∀ d ∈ digits, d < 16) : byteDigits (pairBytes digits) = digits := by
  induction k generalizing digits with
  | zero => rw [List.length_eq_zero_iff.mp hlen]; rfl
  | succ k ih =>
    match digits, hlen with
    | high :: low :: rest, hlen =>
      have hrest : rest.length = 2 * k := by simp only [List.length_cons] at hlen; omega
      simp only [List.forall_mem_cons] at hlt
      obtain ⟨hhigh, hlow, hlt⟩ := hlt
      have hbyte := toNat_pair hhigh hlow
      have hhead : byteDigits (pairBytes (high :: low :: rest))
          = (high * 16 + low) / 16 :: (high * 16 + low) % 16 :: byteDigits (pairBytes rest) := by
        rw [pairBytes, byteDigits, List.flatMap_cons, hbyte]
        rfl
      rw [hhead, ih hrest hlt]
      congr 1
      · omega
      · congr 1
        omega

/-- A byte's two digits make it again. -/
theorem pairBytes_byteDigits (bs : List UInt8) : pairBytes (byteDigits bs) = bs := by
  induction bs with
  | nil => rfl
  | cons b bs ih =>
    have hhead : byteDigits (b :: bs) = b.toNat / 16 :: b.toNat % 16 :: byteDigits bs := rfl
    have hbyte : b.toNat / 16 * 16 + b.toNat % 16 = b.toNat := Nat.div_add_mod' _ _
    rw [hhead, pairBytes, hbyte, UInt8.ofNat_toNat, ih]

/-! ## Bytes and characters

The reader cuts its text at a byte. A character of more than one byte never equals the mark, so
the cut cannot fall inside one. -/

/-- No character above ASCII is a digit. -/
theorem hexDigit_high {c : Char} (hc : 128 ≤ c.toNat) : hexDigit c = none := by
  unfold hexDigit
  simp only [Char.le_def, UInt32.le_iff_toNat_le]
  have hval : c.val.toNat = c.toNat := rfl
  have h9 : '9'.val.toNat = 57 := rfl
  have hf : 'f'.val.toNat = 102 := rfl
  have hF : 'F'.val.toNat = 70 := rfl
  rw [if_neg (by omega), if_neg (by omega), if_neg (by omega)]

/-- No character above ASCII is left out as a colon or a blank. -/
theorem text_high {c : Char} (hc : 128 ≤ c.toNat) :
    (decide (c ≠ ':') && !isAsciiWhitespace c) = true := by
  have hne : ∀ d : Char, d.toNat < 128 → c ≠ d := by
    rintro d hd rfl
    omega
  have hcolon := hne ':' (by decide)
  have hspace := hne ' ' (by decide)
  have htab := hne '\t' (by decide)
  have hline := hne '\n' (by decide)
  have hreturn := hne '\r' (by decide)
  have hfeed : c.toNat ≠ 0x0C := by omega
  simp [isAsciiWhitespace, hcolon, hspace, htab, hline, hreturn, hfeed]

/-- The characters left after the mark is cut off, where there is one. -/
theorem unmarked_bytes (s : List Char) :
    unmarked (Utf8.bytes s) = some (Utf8.bytes
      (if (s.take 7).map Char.toLower = "sha256:".toList then s.drop 7 else s)) := by
  have htext : "sha256:".toList = ['s', 'h', 'a', '2', '5', '6', ':'] := rfl
  have hmark : ∀ c ∈ "sha256:".toList, c.toNat < 128 ∧ c.toLower = c := by
    intro c hc
    rw [htext] at hc
    fin_cases hc <;> exact ⟨by decide, rfl⟩
  obtain ⟨hstarts, hrest⟩ := Utf8.starts_iff hmark s
  have hlen : "sha256:".toList.length = 7 := by rw [htext]; rfl
  rw [hlen] at hstarts hrest
  unfold unmarked
  by_cases hs : (s.take 7).map Char.toLower = "sha256:".toList
  · obtain ⟨mark, hget, heq⟩ := hstarts.mpr hs
    rw [if_pos hs, hget]
    dsimp only
    rw [if_pos heq, hrest hs]
  · rw [if_neg hs]
    cases hget : Utf8.getTo (Utf8.bytes s) 7 with
    | none => rfl
    | some mark =>
      dsimp only
      rw [if_neg fun heq => hs (hstarts.mp ⟨mark, hget, heq⟩)]

/-! ## What is read

The reader accepts what spells a fingerprint, and never panics. -/

/-- What `from_str` makes of a text: it reads the 64 digits spelled in it, or refuses. -/
theorem fromStr_spec (text : String) :
    (fromStr text = .refused ∧ ¬ ∃ digits, (spelled text).mapM hexDigit = some digits
      ∧ digits.length = 64)
    ∨ ∃ digits fp, (spelled text).mapM hexDigit = some digits ∧ digits.length = 64
      ∧ fromStr text = .read fp ∧ fp.toList = pairBytes digits := by
  have hkept : ∀ s : List Char, (Utf8.bytes s).filter isText
      = Utf8.bytes (s.filter fun c => c ≠ ':' && !isAsciiWhitespace c) :=
    Utf8.filter_bytes fun c => text_high
  have hdigits : (Utf8.bytes (spelled text)).mapM byteDigit = (spelled text).mapM hexDigit :=
    Utf8.mapM_bytes (fun c => hexDigit_high) (spelled text)
  have hread : fromStr text = if (Utf8.bytes (spelled text)).length ≠ 64 then .refused
      else readPairs (Vector.replicate 32 0) 0 (Utf8.bytes (spelled text)) := by
    rw [fromStr, unmarked_bytes]
    dsimp only
    rw [hkept]
    rfl
  rw [hread]
  by_cases hlen : (Utf8.bytes (spelled text)).length = 64
  · rw [if_neg (not_not.mpr hlen)]
    rcases readPairs_spec (k := 32) (i := 0) rfl hlen (Vector.replicate 32 0) with
      ⟨hnone, hrefused⟩ | ⟨digits, fp, hsome, hfp, hbytes⟩
    · refine .inl ⟨hrefused, ?_⟩
      rintro ⟨digits, hsome, -⟩
      rw [← hdigits, hnone] at hsome
      cases hsome
    · refine .inr ⟨digits, fp, hdigits ▸ hsome, ?_, hfp, hbytes⟩
      rw [length_of_mapM hsome, hlen]
  · refine .inl ⟨if_pos hlen, ?_⟩
    rintro ⟨digits, hsome, h64⟩
    rw [← hdigits] at hsome
    exact hlen (by rw [← length_of_mapM hsome, h64])

/-- It does not panic: all of its slices are on character boundaries. -/
theorem fromStr_ne_panicked (text : String) : fromStr text ≠ .panicked := by
  rcases fromStr_spec text with ⟨h, -⟩ | ⟨-, fp, -, -, h, -⟩ <;> rw [h] <;> simp

/-- A text is read as `fp` exactly if it spells the digits of `fp`. -/
theorem fromStr_eq_read_iff (text : String) (fp : Raw) :
    fromStr text = .read fp ↔ Spells text fp := by
  rcases fromStr_spec text with ⟨hrefused, hnot⟩ | ⟨digits, fp', hsome, hlen, hread, hbytes⟩
  · constructor
    · intro h
      rw [hrefused] at h
      cases h
    · rintro ⟨digits, hsome, hlen, -⟩
      exact absurd ⟨digits, hsome, hlen⟩ hnot
  · constructor
    · intro h
      rw [hread] at h
      cases h
      exact ⟨digits, hsome, hlen, hbytes⟩
    · rintro ⟨digits', hsome', -, hbytes'⟩
      rw [hsome] at hsome'
      cases hsome'
      have hsame : fp' = fp := Vector.toList_inj.mp (hbytes.trans hbytes'.symm)
      rw [hread, hsame]

/-! ## The rest of the model

The same function as the one over characters used elsewhere. -/

/-- The fingerprint as a number, its first byte the highest. -/
def ofRaw (fp : Raw) : Fingerprint :=
  ⟨BitVec.ofNat 256 (fp.toList.foldl (fun n b => n * 256 + b.toNat) 0)⟩

/-- Reading pairs of digits as bytes and then as a number is reading the digits as one. -/
theorem foldl_pairBytes {k : Nat} {digits : List Nat} (hlen : digits.length = 2 * k)
    (hlt : ∀ d ∈ digits, d < 16) (n : Nat) :
    (pairBytes digits).foldl (fun n b => n * 256 + b.toNat) n
      = digits.foldl (fun n d => n * 16 + d) n := by
  induction k generalizing digits n with
  | zero => rw [List.length_eq_zero_iff.mp hlen]; rfl
  | succ k ih =>
    match digits, hlen with
    | high :: low :: rest, hlen =>
      have hrest : rest.length = 2 * k := by simp only [List.length_cons] at hlen; omega
      simp only [List.forall_mem_cons] at hlt
      obtain ⟨hhigh, hlow, hlt⟩ := hlt
      have hbyte := toNat_pair hhigh hlow
      have hnext : n * 256 + (high * 16 + low) = (n * 16 + high) * 16 + low := by omega
      rw [pairBytes, List.foldl_cons, List.foldl_cons, List.foldl_cons, hbyte, hnext, ih hrest hlt]

/-- What the trust store, the config and the front ends read of a text is what `from_str` does. -/
theorem parseFingerprint_eq (text : String) : parseFingerprint text =
    match fromStr text with
    | .read fp => some (ofRaw fp)
    | _ => none := by
  have hparse : parseFingerprint text = if (spelled text).length ≠ 64 then none
      else ((spelled text).mapM hexDigit).map fun digits =>
        ⟨BitVec.ofNat 256 (digits.foldl (fun n d => n * 16 + d) 0)⟩ := rfl
  rw [hparse]
  rcases fromStr_spec text with ⟨hrefused, hnot⟩ | ⟨digits, fp, hsome, hlen, hread, hbytes⟩
  · rw [hrefused]
    dsimp only
    split
    · rfl
    next hlen =>
    cases hsome : (spelled text).mapM hexDigit with
    | none => rfl
    | some digits =>
      exact absurd ⟨digits, hsome, by rw [length_of_mapM hsome, not_not.mp hlen]⟩ hnot
  · have h64 : ¬ (spelled text).length ≠ 64 := by
      rw [← length_of_mapM hsome, hlen]
      exact not_not.mpr rfl
    rw [if_neg h64, hsome, hread]
    dsimp only [Option.map_some]
    rw [ofRaw, hbytes, foldl_pairBytes (k := 32) hlen (lt_of_mapM_hexDigit hsome)]

/-! ## What is written

What is displayed spells the fingerprint, in one way only. -/

/-- The text of a fingerprint: its bytes, with colons in between. -/
theorem toList_display (fp : Raw) : (display fp).toList = "SHA256:".toList
    ++ fp.toList.zipIdx.flatMap fun e => (if 0 < e.2 then [':'] else []) ++ hexByte e.1 :=
  String.toList_ofList

/-- A byte is written as its two digits. -/
theorem hexByte_eq (b : UInt8) :
    hexByte b = [b.toNat / 16, b.toNat % 16].map hexChar := rfl

/-- Each half of a byte is below 16. -/
theorem halves_lt (b : UInt8) : ∀ d ∈ [b.toNat / 16, b.toNat % 16], d < 16 := by
  have hlt : b.toNat < 256 := b.toNat_lt
  intro d hd
  simp only [List.mem_cons, List.not_mem_nil, or_false] at hd
  omega

/-- What is written spells the digits of its bytes. -/
theorem spelled_display (fp : Raw) :
    spelled (display fp) = (byteDigits fp.toList).map hexChar := by
  -- there are no blanks at either end, so trimming does nothing
  have htrim : trimText (display fp).toList = (display fp).toList := by
    refine trimText_eq_self fun c hc => ?_
    rw [toList_display, List.mem_append] at hc
    rcases hc with hc | hc
    · have hmark : ("SHA256:".toList.all fun c => !isWhitespace c) = true := by decide +kernel
      simpa using List.all_eq_true.mp hmark c hc
    · obtain ⟨⟨b, i⟩, -, hc⟩ := List.mem_flatMap.mp hc
      rcases List.mem_append.mp hc with hc | hc
      · split at hc
        · rw [List.mem_singleton.mp hc]
          decide
        · cases hc
      · rw [hexByte_eq] at hc
        obtain ⟨d, hd, rfl⟩ := List.mem_map.mp hc
        exact (hexChar_spec d (halves_lt b d hd)).2.1
  -- a byte's digits are neither blanks nor colons
  have hbyte : ∀ b : UInt8, (hexByte b).filter (fun c => c ≠ ':' && !isAsciiWhitespace c)
      = hexByte b := by
    intro b
    rw [List.filter_eq_self]
    intro c hc
    rw [hexByte_eq] at hc
    obtain ⟨d, hd, rfl⟩ := List.mem_map.mp hc
    obtain ⟨-, -, hblank, hcolon⟩ := hexChar_spec d (halves_lt b d hd)
    simp [hblank, hcolon]
  have hcut : ∀ rest : List Char,
      (("SHA256:".toList ++ rest).take 7).map Char.toLower = "sha256:".toList
      ∧ ("SHA256:".toList ++ rest).drop 7 = rest := fun rest => ⟨rfl, rfl⟩
  rw [spelled, htrim, toList_display, if_pos (hcut _).1, (hcut _).2, List.filter_flatMap]
  calc (fp.toList.zipIdx.flatMap fun e => List.filter (fun c => c ≠ ':' && !isAsciiWhitespace c)
        ((if 0 < e.2 then [':'] else []) ++ hexByte e.1))
      = fp.toList.zipIdx.flatMap fun e => hexByte e.1 := by
        congr 1
        funext e
        rw [List.filter_append, hbyte]
        split <;> rfl
    _ = (fp.toList.zipIdx.map Prod.fst).flatMap hexByte := (List.flatMap_map Prod.fst _ _).symm
    _ = (byteDigits fp.toList).map hexChar := by
        rw [List.zipIdx_map_fst, byteDigits, List.map_flatMap]
        rfl

/-- **A fingerprint is read back from its text.** -/
theorem fromStr_display (fp : Raw) : fromStr (display fp) = .read fp := by
  rw [fromStr_eq_read_iff]
  refine ⟨byteDigits fp.toList, ?_, ?_, (pairBytes_byteDigits _).symm⟩
  · rw [spelled_display]
    refine mapM_hexChar fun d hd => ?_
    obtain ⟨b, -, hd⟩ := List.mem_flatMap.mp hd
    exact halves_lt b d hd
  · rw [byteDigits, List.length_flatMap]
    simp

/-- Texts read as one fingerprint spell the same digits. -/
theorem spelled_unique {text text' : String} {fp : Raw} (h : Spells text fp)
    (h' : Spells text' fp) : (spelled text).mapM hexDigit = (spelled text').mapM hexDigit := by
  obtain ⟨digits, hsome, hlen, hbytes⟩ := h
  obtain ⟨digits', hsome', hlen', hbytes'⟩ := h'
  have hdigits := byteDigits_pairBytes (k := 32) hlen (lt_of_mapM_hexDigit hsome)
  have hdigits' := byteDigits_pairBytes (k := 32) hlen' (lt_of_mapM_hexDigit hsome')
  rw [hsome, hsome', ← hdigits, ← hdigits', ← hbytes, ← hbytes']

/-- A fingerprint is read back from what is written of it; no text makes reading panic; a text is
read exactly if it spells 64 digits, as their bytes, so texts read as one fingerprint spell the
same digits. -/
theorem fingerprint_grammar :
    (∀ fp : Raw, fromStr (display fp) = .read fp)
    ∧ ∀ text : String, fromStr text ≠ .panicked
      ∧ ((∃ fp, fromStr text = .read fp)
        ↔ ∃ digits, (spelled text).mapM hexDigit = some digits ∧ digits.length = 64)
      ∧ (∀ fp, fromStr text = .read fp ↔ Spells text fp)
      ∧ ∀ text' fp, fromStr text = .read fp → fromStr text' = .read fp →
        (spelled text).mapM hexDigit = (spelled text').mapM hexDigit := by
  refine ⟨fromStr_display, fun text => ⟨fromStr_ne_panicked text, ?_, fromStr_eq_read_iff text, ?_⟩⟩
  -- refused, or read from its 64 digits
  · rcases fromStr_spec text with ⟨hrefused, hnot⟩ | ⟨digits, fp, hsome, hlen, hread, -⟩
    · constructor
      · rintro ⟨fp, hread⟩
        rw [hrefused] at hread
        cases hread
      · exact fun h => absurd h hnot
    · exact ⟨fun _ => ⟨digits, hsome, hlen⟩, fun _ => ⟨fp, hread⟩⟩
  · intro text' fp h h'
    exact spelled_unique ((fromStr_eq_read_iff text fp).mp h) ((fromStr_eq_read_iff text' fp).mp h')

end Fingerprint

end GeserDesk
