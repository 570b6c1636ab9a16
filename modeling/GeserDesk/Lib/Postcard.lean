import Mathlib.Data.List.Basic

/-!
# A byte format of numbers, strings and lists

Values written one after the other with nothing between them, as the postcard format does it: a
number in base 128, lowest digit first, every byte but the last with its high bit set; a byte
string, a text or a list after its length; a flag as one byte.

`Wire α` is a writer with the reader that undoes it, whatever follows in the input, so formats
compose: **`Wire.decode_encode`** holds of every format built from these.
-/

namespace Postcard

/-- A format: a writer, and a reader that takes what was written off the front of any input. -/
structure Wire (α : Type) where
  write : α → List UInt8
  read : List UInt8 → Option (α × List UInt8)
  read_write : ∀ a rest, read (write a ++ rest) = some (a, rest)

/-! ## Numbers -/

/-- The digits of `n`; there are fewer of them than `fuel`. -/
def writeDigits : Nat → Nat → List UInt8
  | 0, _ => []
  | fuel + 1, n =>
    if n < 128 then [UInt8.ofNat n]
    else UInt8.ofNat (n % 128 + 128) :: writeDigits fuel (n / 128)

def readDigits : List UInt8 → Option (Nat × List UInt8)
  | [] => none
  | b :: bs =>
    if b.toNat < 128 then some (b.toNat, bs)
    else match readDigits bs with
      | some (n, rest) => some (b.toNat - 128 + 128 * n, rest)
      | none => none

/-- A number is read back from its digits. -/
theorem readDigits_writeDigits (fuel n : Nat) (h : n < fuel) (rest : List UInt8) :
    readDigits (writeDigits fuel n ++ rest) = some (n, rest) := by
  induction fuel generalizing n with
  | zero => omega
  | succ fuel ih =>
    unfold writeDigits
    split
    · next hlt =>
      have hb : (UInt8.ofNat n).toNat = n := by
        rw [UInt8.toNat_ofNat']; omega
      rw [List.cons_append, List.nil_append, readDigits, hb, if_pos hlt]
    · next hge =>
      have hb : (UInt8.ofNat (n % 128 + 128)).toNat = n % 128 + 128 := by
        rw [UInt8.toNat_ofNat']; omega
      have hsum : n % 128 + 128 - 128 + 128 * (n / 128) = n := by omega
      rw [List.cons_append, readDigits, hb, if_neg (by omega), ih (n / 128) (by omega)]
      dsimp only
      rw [hsum]

namespace Wire

variable {α β : Type}

def nat : Wire Nat where
  write n := writeDigits (n + 1) n
  read := readDigits
  read_write n rest := readDigits_writeDigits (n + 1) n (Nat.lt_succ_self n) rest

/-! ## Composition

Codecs put together: one after another, through a map, and as many as a number says. -/

/-- One value, then another. -/
def pair (a : Wire α) (b : Wire β) : Wire (α × β) where
  write x := a.write x.1 ++ b.write x.2
  read bs :=
    match a.read bs with
    | some (x, bs) =>
      match b.read bs with
      | some (y, bs) => some ((x, y), bs)
      | none => none
    | none => none
  read_write x rest := by
    rw [List.append_assoc, a.read_write]
    dsimp only
    rw [b.read_write]

/-- A type whose values are given by those of another, where the way back may fail. -/
def via (a : Wire α) (into : β → α) (from_ : α → Option β)
    (h : ∀ b, from_ (into b) = some b) : Wire β where
  write b := a.write (into b)
  read bs :=
    match a.read bs with
    | some (x, bs) =>
      match from_ x with
      | some b => some (b, bs)
      | none => none
    | none => none
  read_write b rest := by
    rw [a.read_write]
    dsimp only
    rw [h]

/-- `n` values, one after the other. -/
def readMany (a : Wire α) : Nat → List UInt8 → Option (List α × List UInt8)
  | 0, bs => some ([], bs)
  | n + 1, bs =>
    match a.read bs with
    | some (x, bs) =>
      match readMany a n bs with
      | some (xs, bs) => some (x :: xs, bs)
      | none => none
    | none => none

/-- A list is read back from its elements. -/
theorem readMany_flatMap (a : Wire α) (xs : List α) (rest : List UInt8) :
    a.readMany xs.length (xs.flatMap a.write ++ rest) = some (xs, rest) := by
  induction xs with
  | nil => rfl
  | cons x xs ih =>
    rw [List.flatMap_cons, List.append_assoc, List.length_cons, readMany, a.read_write]
    dsimp only
    rw [ih]

/-- A list, after its length. -/
def list (a : Wire α) : Wire (List α) where
  write xs := nat.write xs.length ++ xs.flatMap a.write
  read bs :=
    match nat.read bs with
    | some (n, bs) => a.readMany n bs
    | none => none
  read_write xs rest := by
    rw [List.append_assoc, nat.read_write]
    exact readMany_flatMap a xs rest

/-! ## Bytes, texts and flags -/

def byte : Wire UInt8 where
  write b := [b]
  read
    | [] => none
    | b :: bs => some (b, bs)
  read_write _ _ := rfl

def bytes : Wire (List UInt8) := byte.list

/-- A text, in UTF-8. -/
def text : Wire String :=
  bytes.via (fun s => s.toByteArray.data.toList) (fun bs => String.fromUTF8? ⟨bs.toArray⟩)
    fun s => by
      show (if h : _ then some (String.fromUTF8 _ h) else none) = some s
      rw [dif_pos s.isValidUTF8]
      rfl

def flag : Wire Bool :=
  byte.via (fun b => if b then 1 else 0) (fun b => if b = 0 then some false
    else if b = 1 then some true else none) fun b => by cases b <;> rfl

/-- Read a whole input; what follows the value is not looked at. -/
def decode (a : Wire α) (bs : List UInt8) : Option α := (a.read bs).map (·.1)

/-- A value of any format is read back from what it is written as. -/
theorem decode_encode (a : Wire α) (x : α) : a.decode (a.write x) = some x := by
  have h := a.read_write x []
  rw [List.append_nil] at h
  rw [decode, h]; rfl

end Wire

end Postcard
