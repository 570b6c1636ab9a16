import GeserDesk.Server.Admin
import Mathlib.Data.List.DropRight

/-!
# Fingerprints as text

`geserdesk-tls/src/fingerprint.rs`: a fingerprint is written `SHA256:ab:cd:...`, and read from that
form with or without its prefix, colons or blanks, in any letter case.

* **`parseFingerprint_toText`**: what is written is read again as the same fingerprint.
-/

namespace GeserDesk

/-! ## Text -/

/-- `str::trim`. -/
def trim (s : String) : String := String.ofList (trimText s.toList)

/-- A text without blanks is trimmed. -/
theorem trimText_eq_self {l : List Char} (h : ∀ c ∈ l, isWhitespace c = false) :
    trimText l = l := by
  have hdrop : ∀ l : List Char, (∀ c ∈ l, isWhitespace c = false) →
      l.dropWhile isWhitespace = l := by
    intro l hl
    rw [List.dropWhile_eq_self_iff]
    intro hpos
    simp [hl _ (List.getElem_mem hpos)]
  unfold trimText
  rw [hdrop l h, hdrop l.reverse fun c hc => h c (List.mem_reverse.mp hc), List.reverse_reverse]

/-! ## Digits

A byte as two digits, and back. -/

/-- The digit `d` in lower case. -/
def hexChar (d : Nat) : Char :=
  if d < 10 then Char.ofNat ('0'.toNat + d) else Char.ofNat ('a'.toNat + (d - 10))

/-- The last `n` digits of `x`, the first of them first. -/
def lastDigits : Nat → Nat → List Nat
  | 0, _ => []
  | n + 1, x => lastDigits n (x / 16) ++ [x % 16]

/-- There are as many digits as asked for. -/
@[simp] theorem length_lastDigits (n x : Nat) : (lastDigits n x).length = n := by
  induction n generalizing x with
  | zero => rfl
  | succ n ih => simp [lastDigits, ih]

/-- Each digit is below 16. -/
theorem lt_of_mem_lastDigits {n x d : Nat} (h : d ∈ lastDigits n x) : d < 16 := by
  induction n generalizing x with
  | zero => cases h
  | succ n ih =>
    obtain h | h := List.mem_append.mp h
    · exact ih h
    · rw [List.mem_singleton.mp h]
      exact Nat.mod_lt _ (by decide)

/-- The digits are those of the number. -/
theorem foldl_lastDigits (n x : Nat) :
    (lastDigits n x).foldl (fun acc d => acc * 16 + d) 0 = x % 16 ^ n := by
  induction n generalizing x with
  | zero => simp [lastDigits, Nat.mod_one]
  | succ n ih =>
    rw [lastDigits, List.foldl_append, ih, List.foldl_cons, List.foldl_nil, Nat.pow_succ,
      Nat.mul_comm (16 ^ n) 16, Nat.mod_mul]
    omega

/-- A digit is written as a letter or a figure that is read as that digit. -/
theorem hexChar_spec : ∀ d < 16, hexDigit (hexChar d) = some d
    ∧ isWhitespace (hexChar d) = false ∧ isAsciiWhitespace (hexChar d) = false
    ∧ hexChar d ≠ ':' := by
  decide

/-- Digits are read back from their letters. -/
theorem mapM_hexChar {l : List Nat} (h : ∀ d ∈ l, d < 16) :
    (l.map hexChar).mapM hexDigit = some l := by
  induction l with
  | nil => rfl
  | cons d l ih =>
    rw [List.map_cons, List.mapM_cons, (hexChar_spec d (h d (by simp))).1,
      ih fun d' hd' => h d' (by simp [hd'])]
    rfl

namespace Fingerprint

/-! ## Writing and reading

A fingerprint written out is read as itself. -/

/-- A colon after every second character but the last two. -/
def colons : List Char → List Char
  | a :: b :: c :: rest => a :: b :: ':' :: colons (c :: rest)
  | l => l

def toChars (fp : Fingerprint) : List Char :=
  "SHA256:".toList ++ colons ((lastDigits 64 fp.digest.toNat).map hexChar)

/-- `Display`: `SHA256:ab:cd:...`. -/
def toText (fp : Fingerprint) : String := String.ofList fp.toChars

/-- Colons add nothing but colons. -/
theorem mem_colons {l : List Char} {c : Char} (h : c ∈ colons l) : c ∈ l ∨ c = ':' := by
  induction l using colons.induct with
  | case1 a b d rest ih =>
    simp only [colons, List.mem_cons] at h ih ⊢
    obtain h | h | h | h := h
    · exact .inl (.inl h)
    · exact .inl (.inr (.inl h))
    · exact .inr h
    · obtain h | h := ih h
      · exact .inl (.inr (.inr h))
      · exact .inr h
  | case2 l hl =>
    rw [colons.eq_2 l hl] at h
    exact .inl h

/-- Colons take nothing away. -/
theorem filter_colons {p : Char → Bool} (hp : p ':' = false) (l : List Char) :
    (colons l).filter p = l.filter p := by
  induction l using colons.induct with
  | case1 a b d rest ih =>
    simp only [colons, List.filter_cons] at ih ⊢
    rw [hp, ih]
    rfl
  | case2 l hl => rw [colons.eq_2 l hl]

/-- No blank is in what is written. -/
theorem toChars_blank (fp : Fingerprint) : ∀ c ∈ fp.toChars, isWhitespace c = false := by
  intro c hc
  obtain hc | hc := List.mem_append.mp hc
  · have hmark : ("SHA256:".toList.all fun c => !isWhitespace c) = true := by decide +kernel
    simpa using List.all_eq_true.mp hmark c hc
  · obtain hc | rfl := mem_colons hc
    · obtain ⟨d, hd, rfl⟩ := List.mem_map.mp hc
      exact (hexChar_spec d (lt_of_mem_lastDigits hd)).2.1
    · decide

/-- A text with the prefix is read as the digits after it. -/
theorem parseFingerprint_of_marked {text : String} {rest hex : List Char} {digits : List Nat}
    (htrim : trimText text.toList = "SHA256:".toList ++ rest)
    (hfilter : rest.filter (fun c => c ≠ ':' && !isAsciiWhitespace c) = hex)
    (hlen : hex.length = 64) (hdigits : hex.mapM hexDigit = some digits) :
    parseFingerprint text
      = some ⟨BitVec.ofNat 256 (digits.foldl (fun n d => n * 16 + d) 0)⟩ := by
  have htake : (("SHA256:".toList ++ rest).take 7).map Char.toLower = "sha256:".toList := rfl
  have hdrop : ("SHA256:".toList ++ rest).drop 7 = rest := rfl
  unfold parseFingerprint
  simp only [htrim, htake, hdrop, if_true, hfilter, hlen, ne_eq, not_true_eq_false, if_false,
    hdigits, Option.map_some]

/-- **A fingerprint is read back from its text.** -/
theorem parseFingerprint_toText (fp : Fingerprint) : parseFingerprint fp.toText = some fp := by
  have htrim : trimText fp.toText.toList = fp.toChars := by
    rw [toText, String.toList_ofList, trimText_eq_self fp.toChars_blank]
  have hfilter : (colons ((lastDigits 64 fp.digest.toNat).map hexChar)).filter
      (fun c => c ≠ ':' && !isAsciiWhitespace c) = (lastDigits 64 fp.digest.toNat).map hexChar := by
    rw [filter_colons (by decide), List.filter_eq_self]
    intro c hc
    obtain ⟨d, hd, rfl⟩ := List.mem_map.mp hc
    obtain ⟨-, -, hblank, hcolon⟩ := hexChar_spec d (lt_of_mem_lastDigits hd)
    simp [hblank, hcolon]
  have hlt : fp.digest.toNat < 16 ^ 64 := fp.digest.isLt
  rw [parseFingerprint_of_marked htrim hfilter (by simp)
      (mapM_hexChar fun d => lt_of_mem_lastDigits),
    foldl_lastDigits, Nat.mod_eq_of_lt hlt, BitVec.ofNat_toNat, BitVec.setWidth_eq]

end Fingerprint

end GeserDesk
