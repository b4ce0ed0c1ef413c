import Mathlib.Data.List.TakeWhile
import TalusVSwitch.Library.Numeral
import TalusVSwitch.Library.Pieces
import TalusVSwitch.Frame

/-! Text as the C library and `util.cpp` read it: pieces at a delimiter, the number a
text begins with, and the decimal text of a number. -/

namespace TalusVSwitch

/-- `toolkit::split`, at a delimiter of one character: no empty parts, unless the
whole is empty. -/
def split (bytes : Bytes) (delim : UInt8) : List Bytes :=
  if bytes.isEmpty then [[]] else (bytes.splitOn delim).filter (fun part => !part.isEmpty)

/-- What `c_str()` shows of a string. -/
def cStr (bytes : Bytes) : Bytes := bytes.takeWhile (fun byte => byte != 0)

def isspace (byte : UInt8) : Bool := byte == 32 || (9 ≤ byte && byte ≤ 13)

/-- The value of a digit, a letter of either case being one from ten on. -/
def digitOf (base : Nat) (byte : UInt8) : Option Nat :=
  let code := byte.toNat
  let value :=
    if 48 ≤ code ∧ code ≤ 57 then code - 48
    else if 97 ≤ code ∧ code ≤ 122 then code - 87
    else if 65 ≤ code ∧ code ≤ 90 then code - 55
    else base
  if value < base then some value else none

/-- The digits a text begins with. -/
def digits (base : Nat) : Bytes → List Nat
  | [] => []
  | byte :: rest =>
    match digitOf base byte with
    | some digit => digit :: digits base rest
    | none => []

/-- A `0x` before a hexadecimal digit is no part of the number. -/
def skipPrefix (base : Nat) (bytes : Bytes) : Bytes :=
  match bytes with
  | zero :: x :: digit :: rest =>
    if base = 16 ∧ zero = 48 ∧ (x = 120 ∨ x = 88) ∧ (digitOf 16 digit).isSome then digit :: rest
    else bytes
  | _ => bytes

def magnitude (base : Nat) (bytes : Bytes) : Option Nat :=
  match digits base (skipPrefix base bytes) with
  | [] => none
  | first :: rest => some (Numeral.value base (first :: rest))

/-- The number `strtol` reads at the head of a text, before it is fitted into a
`long`; `none` where it converts nothing. What follows the number is not looked at. -/
def strtol (base : Nat) (bytes : Bytes) : Option Int :=
  match bytes.dropWhile isspace with
  | [] => none
  | sign :: rest =>
    if sign = 45 then (magnitude base rest).map (fun value => -(value : Int))
    else if sign = 43 then (magnitude base rest).map Int.ofNat
    else (magnitude base (sign :: rest)).map Int.ofNat

/-- `std::stoi`. `none` is one of its two exceptions: nothing to convert, or a number
that is no `int`. -/
def stoi (bytes : Bytes) (base : Nat) : Option Int :=
  (strtol base bytes).filter (fun value => -2147483648 ≤ value && value ≤ 2147483647)

/-- `atoi`: the `long` that `strtol` fits the number into, cut to an `int`. -/
def atoi (bytes : Bytes) : Int :=
  let value := (strtol 10 bytes).getD 0
  (max (-9223372036854775808) (min value 9223372036854775807)).bmod 4294967296

/-- An `int` stored in a `uint8_t`. -/
def toUInt8 (value : Int) : UInt8 := UInt8.ofNat (value % 256).toNat

/-- An `int` passed as a `uint16_t`. -/
def toUInt16 (value : Int) : UInt16 := UInt16.ofNat (value % 65536).toNat

theorem toUInt16_eq_zero {number : Int} : toUInt16 number = 0 ↔ 65536 ∣ number := by
  rw [toUInt16, ← UInt16.toNat_inj, UInt16.toNat_ofNat', Int.dvd_iff_emod_eq_zero]
  change _ % 65536 = 0 ↔ _
  omega

theorem split_eq (bytes : Bytes) (delim : UInt8) :
    split bytes delim = if bytes.isEmpty then [[]] else Pieces.pieces delim bytes := rfl

theorem split_of_ne_nil {bytes : Bytes} (nonempty : bytes ≠ []) (delim : UInt8) :
    split bytes delim = Pieces.pieces delim bytes := by
  simp [split_eq, nonempty]

theorem digit_code {base : Nat} (small : base ≤ 16) {byte : UInt8}
    (digit : (digitOf base byte).isSome) :
    (48 ≤ byte.toNat ∧ byte.toNat ≤ 57) ∨ (97 ≤ byte.toNat ∧ byte.toNat ≤ 102) ∨
      (65 ≤ byte.toNat ∧ byte.toNat ≤ 70) := by
  simp only [digitOf] at digit
  split_ifs at digit <;> simp_all <;> omega

/-- The characters that are no digit in a base up to sixteen. -/
abbrev NoDigit (code : UInt8) : Prop :=
  code.toNat < 48 ∨ (57 < code.toNat ∧ code.toNat < 65) ∨ (70 < code.toNat ∧ code.toNat < 97) ∨
    102 < code.toNat

theorem digit_ne {base : Nat} (small : base ≤ 16) {byte code : UInt8}
    (digit : (digitOf base byte).isSome) (other : NoDigit code) : byte ≠ code := by
  rintro rfl
  have codes := digit_code small digit
  omega

theorem digit_not_space {base : Nat} (small : base ≤ 16) {byte : UInt8}
    (digit : (digitOf base byte).isSome) : isspace byte = false := by
  have blank : ¬ byte = 32 := digit_ne small digit (by decide)
  have tab : ¬ byte ≤ 13 := by
    have codes := digit_code small digit
    rw [UInt8.le_iff_toNat_le]
    show ¬ byte.toNat ≤ 13
    omega
  simp [isspace, blank, tab]

theorem strtol_digits {base : Nat} (small : base ≤ 16) {bytes : Bytes} (nonempty : bytes ≠ [])
    (plain : ∀ byte ∈ bytes, (digitOf base byte).isSome) :
    strtol base bytes = some (Numeral.value base (digits base bytes) : Int) := by
  obtain ⟨first, rest, rfl⟩ := List.exists_cons_of_ne_nil nonempty
  have digit := plain first (List.mem_cons_self ..)
  have blank := digit_not_space small digit
  have minus : first ≠ 45 := digit_ne small digit (by decide)
  have plus : first ≠ 43 := digit_ne small digit (by decide)
  have noPrefix : skipPrefix base (first :: rest) = first :: rest := by
    unfold skipPrefix
    split
    · rename_i zero x digit tail same
      obtain ⟨rfl, rfl⟩ := List.cons.inj same
      have second := plain x (by simp)
      have lower : x ≠ 120 := digit_ne small second (by decide)
      have upper : x ≠ 88 := digit_ne small second (by decide)
      simp [lower, upper]
    · rfl
  obtain ⟨value, found⟩ := Option.isSome_iff_exists.mp digit
  simp only [strtol, List.dropWhile_cons, blank, Bool.false_eq_true, if_false, minus, plus, magnitude,
    noPrefix, digits, found, Option.map_some]
  rfl

theorem digits_eq_map {base : Nat} {bytes : Bytes}
    (plain : ∀ byte ∈ bytes, (digitOf base byte).isSome) :
    digits base bytes = bytes.map (fun byte => (digitOf base byte).getD 0) := by
  induction bytes with
  | nil => rfl
  | cons byte rest ih =>
    obtain ⟨digit, others⟩ := List.forall_mem_cons.mp plain
    obtain ⟨value, found⟩ := Option.isSome_iff_exists.mp digit
    simp [digits, found, ih others]

/-- A number as text. -/
def numeralText (base number : Nat) : Bytes :=
  (Nat.toDigits base number).map (fun char => UInt8.ofNat char.toNat)

theorem text_toString (number : Nat) : text (toString number) = numeralText 10 number := by
  show text number.repr = numeralText 10 number
  rw [text, Nat.toList_repr, numeralText]

theorem digitOf_digitChar {base : Nat} (small : base ≤ 16) {value : Nat} (below : value < base) :
    digitOf base (UInt8.ofNat value.digitChar.toNat) = some value := by
  have code : ∀ value < 16, (UInt8.ofNat value.digitChar.toNat).toNat =
      if value < 10 then 48 + value else 87 + value := by decide
  have here := code value (by omega)
  simp only [digitOf, here]
  split_ifs <;> first | omega | simp

theorem numeralText_digit {base : Nat} (large : 1 < base) (small : base ≤ 16) {number : Nat} :
    ∀ byte ∈ numeralText base number, (digitOf base byte).isSome := by
  intro byte member
  obtain ⟨char, written, rfl⟩ := List.mem_map.mp member
  obtain ⟨value, below, rfl⟩ := Numeral.mem_toDigits large written
  rw [digitOf_digitChar small below, Option.isSome_some]

theorem numeralText_ne_nil (base number : Nat) : numeralText base number ≠ [] := by
  simp [numeralText]

theorem value_numeralText {base : Nat} (large : 1 < base) (small : base ≤ 16) (number : Nat) :
    Numeral.value base (digits base (numeralText base number)) = number := by
  rw [digits_eq_map (numeralText_digit large small), numeralText, List.map_map]
  apply Numeral.value_toDigits large
  intro value below
  simp [digitOf_digitChar small below]

/-- A number written in a base reads back. -/
theorem strtol_numeralText {base : Nat} (large : 1 < base) (small : base ≤ 16) (number : Nat) :
    strtol base (numeralText base number) = some (number : Int) := by
  rw [strtol_digits small (numeralText_ne_nil base number) (numeralText_digit large small),
    value_numeralText large small]

theorem cStr_of_notMem {bytes : Bytes} (noNul : 0 ∉ bytes) : cStr bytes = bytes := by
  apply List.takeWhile_eq_self_iff.mpr
  intro byte member
  rw [bne_iff_ne]
  rintro rfl
  exact noNul member

theorem notMem_cStr (bytes : Bytes) : 0 ∉ cStr bytes := by
  intro member
  cases List.mem_takeWhile_imp member

theorem numeralText_notMem {base : Nat} (large : 1 < base) (small : base ≤ 16) (number : Nat)
    {code : UInt8} (other : NoDigit code) : code ∉ numeralText base number := by
  intro member
  exact digit_ne small (numeralText_digit large small code member) other rfl

theorem atoi_port (port : UInt16) : toUInt16 (atoi (cStr (text (toString port.toNat)))) = port := by
  have bound := port.toNat_lt
  rw [text_toString, cStr_of_notMem (numeralText_notMem (by decide) (by decide) _ (by decide)), atoi,
    strtol_numeralText (by decide) (by decide)]
  apply UInt16.toNat_inj.mp
  simp only [toUInt16, Option.getD_some, UInt16.toNat_ofNat', Int.bmod]
  omega

end TalusVSwitch
