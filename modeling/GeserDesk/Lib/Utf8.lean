import Mathlib

/-!
# The bytes of a text

A text as the bytes it is written in. A character of ASCII is one byte, the same number; every byte
of another character is past ASCII. So what is looked for among the bytes, where only bytes of ASCII
are looked for, is what there is among the characters.
-/

namespace Utf8

/-- The bytes of a text. -/
def bytes (l : List Char) : List UInt8 := l.flatMap String.utf8EncodeChar

/-- A byte read as a character, `b as char`. -/
def asChar (b : UInt8) : Char := Char.ofNat b.toNat

/-- Whether a character starts, or the text ends, at byte `i`. -/
def isCharBoundary (bs : List UInt8) (i : Nat) : Bool :=
  i == 0 || match bs[i]? with
    | some b => b < 0x80 || 0xC0 ≤ b
    | none => i == bs.length

/-- `s.get(..i)`. -/
def getTo (bs : List UInt8) (i : Nat) : Option (List UInt8) :=
  if isCharBoundary bs i then some (bs.take i) else none

/-- `&s[i..]`; nothing where it panics. -/
def sliceFrom (bs : List UInt8) (i : Nat) : Option (List UInt8) :=
  if isCharBoundary bs i then some (bs.drop i) else none

/-- `eq_ignore_ascii_case`. -/
def eqIgnoreAsciiCase (a b : List UInt8) : Bool :=
  a.map (fun x => (asChar x).toLower) == b.map fun x => (asChar x).toLower

@[simp] theorem bytes_nil : bytes [] = [] := rfl

/-- The first character's bytes come first. -/
@[simp] theorem bytes_cons (c : Char) (l : List Char) :
    bytes (c :: l) = String.utf8EncodeChar c ++ bytes l := List.flatMap_cons

/-! ## One character -/

/-- An ASCII character is one byte, its own code. -/
theorem encode_ascii {c : Char} (h : c.toNat < 128) :
    ∃ b : UInt8, String.utf8EncodeChar c = [b] ∧ b.toNat = c.toNat ∧ asChar b = c := by
  have hsize : c.utf8Size = 1 :=
    Char.utf8Size_eq_one_iff.mpr (UInt32.le_iff_toNat_le.mpr (Nat.le_of_lt_succ h))
  refine ⟨c.val.toUInt8, String.utf8EncodeChar_eq_singleton hsize, ?_⟩
  have hnat : c.val.toUInt8.toNat = c.toNat := by
    rw [UInt32.toNat_toUInt8]
    exact Nat.mod_eq_of_lt (Nat.lt_trans h (by decide))
  exact ⟨hnat, by rw [asChar, hnat, Char.ofNat_toNat]⟩

/-- A character past ASCII starts with a byte that starts a character, and has no byte of ASCII. -/
theorem encode_high {c : Char} (h : 128 ≤ c.toNat) :
    (∃ b rest, String.utf8EncodeChar c = b :: rest ∧ 0xC0 ≤ b.toNat)
    ∧ ∀ b ∈ String.utf8EncodeChar c, 128 ≤ b.toNat := by
  have hval : c.val.toNat = c.toNat := rfl
  unfold String.utf8EncodeChar
  simp only [hval]
  split
  · omega
  split
  · simp
    omega
  split
  · simp
    omega
  · simp
    omega

/-- A byte taken for a character has its code. -/
theorem toNat_asChar (b : UInt8) : (asChar b).toNat = b.toNat := by
  have hlt : b.toNat < 256 := b.toNat_lt
  have hvalid : b.toNat.isValidChar := Or.inl (Nat.lt_trans hlt (by decide))
  rw [asChar, Char.ofNat, dif_pos hvalid]
  exact Char.toNat_ofNatAux hvalid

/-! ## A whole text

Texts and their bytes. A cut inside a character is where a careless slice would panic; for text of
plain characters there is none. -/

/-- Two stretches are encoded one after the other. -/
theorem bytes_append (l l' : List Char) : bytes (l ++ l') = bytes l ++ bytes l' :=
  List.flatMap_append

/-- A text can be cut where one of its parts ends. -/
theorem isCharBoundary_append (l l' : List Char) :
    isCharBoundary (bytes (l ++ l')) (bytes l).length = true := by
  rw [isCharBoundary, bytes_append, Bool.or_eq_true]
  right
  cases l' with
  | nil => simp
  | cons c l' =>
    rw [List.getElem?_append_right (Nat.le_refl _), Nat.sub_self, bytes_cons]
    by_cases hc : c.toNat < 128
    · obtain ⟨b, hb, hnat, -⟩ := encode_ascii hc
      rw [hb]
      have hlt : b < 0x80 := UInt8.lt_iff_toNat_lt.mpr (by rw [hnat]; exact hc)
      simp [hlt]
    · obtain ⟨⟨b, rest, hb, hstart⟩, -⟩ := encode_high (Nat.le_of_not_lt hc)
      rw [hb]
      have hge : 0xC0 ≤ b := UInt8.le_iff_toNat_le.mpr hstart
      simp [hge]

/-- ASCII bytes taken for characters are the text. -/
theorem map_asChar_bytes {l : List Char} (h : ∀ c ∈ l, c.toNat < 128) :
    (bytes l).map asChar = l := by
  induction l with
  | nil => rfl
  | cons c l ih =>
    rw [List.forall_mem_cons] at h
    obtain ⟨b, hb, -, hchar⟩ := encode_ascii h.1
    rw [bytes_cons, hb, List.map_append, ih h.2, List.map_cons, hchar]
    rfl

/-- Where a text starts with bytes of ASCII, it starts with these characters. -/
theorem take_ascii {l : List Char} {n : Nat} (hn : n ≤ (bytes l).length)
    (hascii : ∀ b ∈ (bytes l).take n, b.toNat < 128) :
    ((bytes l).take n).map asChar = l.take n ∧ (bytes l).drop n = bytes (l.drop n) := by
  induction n generalizing l with
  | zero => simp
  | succ n ih =>
    cases l with
    | nil => exact absurd hn (by simp)
    | cons c l =>
      by_cases hc : c.toNat < 128
      · obtain ⟨b, hb, -, hchar⟩ := encode_ascii hc
        rw [bytes_cons, hb] at hn hascii ⊢
        simp only [List.cons_append, List.nil_append, List.take_succ_cons, List.drop_succ_cons,
          List.length_cons, List.map_cons, List.mem_cons, forall_eq_or_imp] at hn hascii ⊢
        obtain ⟨htake, hdrop⟩ := ih (Nat.le_of_succ_le_succ hn) hascii.2
        exact ⟨by rw [htake, hchar], hdrop⟩
      · obtain ⟨⟨b, rest, hb, hstart⟩, -⟩ := encode_high (Nat.le_of_not_lt hc)
        have hlow := hascii b (by rw [bytes_cons, hb]; simp)
        omega

/-- A character that is one of ASCII in lower case is one of ASCII. -/
theorem ascii_of_toLower {c : Char} (h : c.toLower.toNat < 128) : c.toNat < 128 := by
  unfold Char.toLower at h
  split at h
  · next hupper =>
    have hle : c.toNat ≤ 90 := hupper.2
    omega
  · exact h

/-- A mark of lower case ASCII is found at the start of the bytes, in any letter case, where it is
at the start of the text, and what follows it is the text that follows. -/
theorem starts_iff {mark : List Char} (hmark : ∀ c ∈ mark, c.toNat < 128 ∧ c.toLower = c)
    (l : List Char) :
    ((∃ start, getTo (bytes l) mark.length = some start
        ∧ eqIgnoreAsciiCase start (bytes mark) = true)
      ↔ (l.take mark.length).map Char.toLower = mark)
    ∧ ((l.take mark.length).map Char.toLower = mark →
      sliceFrom (bytes l) mark.length = some (bytes (l.drop mark.length))) := by
  have hlower : (bytes mark).map (fun x => (asChar x).toLower) = mark := by
    have hcomp : (bytes mark).map (fun x => (asChar x).toLower)
        = ((bytes mark).map asChar).map Char.toLower := by rw [List.map_map]; rfl
    rw [hcomp, map_asChar_bytes fun c hc => (hmark c hc).1]
    exact (List.map_congr_left fun c hc => (hmark c hc).2).trans (List.map_id _)
  -- the text starts with the mark: so do its bytes, and it can be cut there
  have hfits : (l.take mark.length).map Char.toLower = mark →
      isCharBoundary (bytes l) mark.length = true
      ∧ ((bytes l).take mark.length).map asChar = l.take mark.length
      ∧ (bytes l).drop mark.length = bytes (l.drop mark.length) := by
    intro hl
    have hascii : ∀ c ∈ l.take mark.length, c.toNat < 128 := by
      intro c hc
      have hmem : c.toLower ∈ mark := hl ▸ List.mem_map_of_mem hc
      exact ascii_of_toLower (hmark _ hmem).1
    have hchars := map_asChar_bytes hascii
    have hlen : (bytes (l.take mark.length)).length = mark.length := by
      rw [← List.length_map asChar, hchars, ← List.length_map Char.toLower, hl]
    have hsplit : bytes l = bytes (l.take mark.length) ++ bytes (l.drop mark.length) := by
      rw [← bytes_append, List.take_append_drop]
    have hcut := isCharBoundary_append (l.take mark.length) (l.drop mark.length)
    rw [List.take_append_drop, hlen] at hcut
    refine ⟨hcut, ?_, ?_⟩
    · rw [hsplit, List.take_left' hlen, hchars]
    · rw [hsplit, List.drop_left' hlen]
  refine ⟨⟨?_, fun hl => ?_⟩, fun hl => ?_⟩
  · rintro ⟨start, hget, heq⟩
    unfold getTo at hget
    split at hget
    · cases hget
      have hsame := beq_iff_eq.mp heq
      rw [hlower] at hsame
      have hlen : mark.length ≤ (bytes l).length := by
        have hcount := congrArg List.length hsame
        rw [List.length_map, List.length_take] at hcount
        omega
      have hascii : ∀ b ∈ (bytes l).take mark.length, b.toNat < 128 := by
        intro b hb
        have hmem : (asChar b).toLower ∈ mark :=
          hsame ▸ List.mem_map_of_mem (f := fun x => (asChar x).toLower) hb
        rw [← toNat_asChar]
        exact ascii_of_toLower (hmark _ hmem).1
      rw [← (take_ascii hlen hascii).1, List.map_map]
      exact hsame
    · cases hget
  · obtain ⟨hcut, htake, -⟩ := hfits hl
    refine ⟨(bytes l).take mark.length, if_pos hcut, beq_iff_eq.mpr ?_⟩
    calc ((bytes l).take mark.length).map (fun x => (asChar x).toLower)
        = (((bytes l).take mark.length).map asChar).map Char.toLower := by
          rw [List.map_map]
          rfl
      _ = mark := by rw [htake, hl]
      _ = (bytes mark).map fun x => (asChar x).toLower := hlower.symm
  · obtain ⟨hcut, -, hdrop⟩ := hfits hl
    rw [sliceFrom, if_pos hcut, hdrop]

/-- Bytes kept by what they are as characters: the characters kept, where every character past
ASCII is. -/
theorem filter_bytes {q : Char → Bool} (hq : ∀ c, 128 ≤ c.toNat → q c = true) (l : List Char) :
    (bytes l).filter (fun b => q (asChar b)) = bytes (l.filter q) := by
  induction l with
  | nil => rfl
  | cons c l ih =>
    rw [bytes_cons, List.filter_append, ih]
    by_cases hc : c.toNat < 128
    · obtain ⟨b, hb, -, hchar⟩ := encode_ascii hc
      rw [hb, List.filter_cons, hchar, List.filter_nil, List.filter_cons]
      cases q c with
      | false => rfl
      | true => simp [hb]
    · obtain ⟨-, hhigh⟩ := encode_high (Nat.le_of_not_lt hc)
      have hkept : (String.utf8EncodeChar c).filter (fun b => q (asChar b))
          = String.utf8EncodeChar c := by
        rw [List.filter_eq_self]
        intro b hb
        exact hq _ (by rw [toNat_asChar]; exact hhigh b hb)
      rw [hkept, List.filter_cons, if_pos (hq c (Nat.le_of_not_lt hc)), bytes_cons]

/-- Bytes read one by one as characters: the characters read, where no character past ASCII is. -/
theorem mapM_bytes {β : Type} {f : Char → Option β} (hf : ∀ c, 128 ≤ c.toNat → f c = none)
    (l : List Char) : (bytes l).mapM (fun b => f (asChar b)) = l.mapM f := by
  induction l with
  | nil => rfl
  | cons c l ih =>
    rw [bytes_cons, List.mapM_append, ih, List.mapM_cons]
    by_cases hc : c.toNat < 128
    · obtain ⟨b, hb, -, hchar⟩ := encode_ascii hc
      rw [hb, List.mapM_cons, hchar, List.mapM_nil]
      cases f c <;> rfl
    · obtain ⟨⟨b, rest, hb, -⟩, hhigh⟩ := encode_high (Nat.le_of_not_lt hc)
      have hnone : f (asChar b) = none := by
        refine hf _ ?_
        rw [toNat_asChar]
        exact hhigh b (by rw [hb]; exact List.mem_cons_self)
      rw [hb, List.mapM_cons, hnone, hf c (Nat.le_of_not_lt hc)]
      rfl

end Utf8
