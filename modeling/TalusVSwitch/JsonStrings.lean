import Mathlib.Data.Nat.Bitwise
import TalusVSwitch.JsonReader
import TalusVSwitch.JsonText

/-! Strings of UTF-8, as the writer spells and the reader decodes them. -/

namespace TalusVSwitch.Json

theorem and_low (width number : Nat) : (2 ^ width - 1) &&& number = number % 2 ^ width := by
  rw [Nat.and_comm, Nat.and_two_pow_sub_one_eq_mod]

theorem or_above {low width : Nat} (below : low < 2 ^ width) (high : Nat) :
    high * 2 ^ width ||| low = high * 2 ^ width + low := by
  rw [Nat.mul_comm, Nat.two_pow_add_eq_or_of_lt below]

theorem toNat_mark {mark mask shift : UInt32} (high width amount : Nat)
    (marked : mark.toNat = high * 2 ^ width) (masked : mask.toNat = 2 ^ width - 1)
    (shifted : shift.toNat = amount) (fits : (high + 1) * 2 ^ width ≤ 256) (below : amount < 32)
    (cp : UInt32) : ((mark ||| (mask &&& (cp >>> shift))).toUInt8).toNat =
      high * 2 ^ width + cp.toNat / 2 ^ amount % 2 ^ width := by
  have less := Nat.mod_lt (cp.toNat / 2 ^ amount) (Nat.two_pow_pos width)
  rw [UInt32.toNat_toUInt8, UInt32.toNat_or, UInt32.toNat_and, UInt32.toNat_shiftRight, marked,
    masked, shifted, and_low, Nat.mod_eq_of_lt below, Nat.shiftRight_eq_div_pow, or_above less]
  apply Nat.mod_eq_of_lt
  rw [Nat.succ_mul] at fits
  show _ < 256
  omega

theorem toNat_below {mask : UInt32} (width : Nat) (masked : mask.toNat = 2 ^ width - 1)
    (byte : UInt8) : (byte.toUInt32 &&& mask).toNat = byte.toNat % 2 ^ width := by
  rw [UInt32.toNat_and, UInt8.toNat_toUInt32, masked, Nat.and_comm, and_low]

theorem toNat_place {mask shift : UInt32} (width amount : Nat) (masked : mask.toNat = 2 ^ width - 1)
    (shifted : shift.toNat = amount) (below : amount < 32) (fits : width + amount ≤ 32)
    (byte : UInt8) :
    ((byte.toUInt32 &&& mask) <<< shift).toNat = byte.toNat % 2 ^ width * 2 ^ amount := by
  have less := Nat.mod_lt byte.toNat (Nat.two_pow_pos width)
  rw [UInt32.toNat_shiftLeft, toNat_below width masked, shifted, Nat.mod_eq_of_lt below,
    Nat.shiftLeft_eq]
  apply Nat.mod_eq_of_lt
  calc byte.toNat % 2 ^ width * 2 ^ amount
      < 2 ^ width * 2 ^ amount := (Nat.mul_lt_mul_right (Nat.two_pow_pos _)).mpr less
    _ = 2 ^ (width + amount) := (Nat.pow_add 2 _ _).symm
    _ ≤ 2 ^ 32 := Nat.pow_le_pow_right (by decide) fits

/-- The code points UTF-8 has a form for. -/
def Scalar (cp : UInt32) : Prop := cp.toNat < 0xD800 ∨ (0xDFFF < cp.toNat ∧ cp.toNat ≤ 0x10FFFF)

/-! ### The four forms, read back -/

section Forms

variable {cp : UInt32} {first second third fourth : UInt8} (rest : Bytes)

theorem first_lt_iff {bound : UInt32} : first.toUInt32 < bound ↔ first.toNat < bound.toNat := by
  rw [UInt32.lt_iff_toNat_lt, UInt8.toNat_toUInt32]

theorem utf8_one (most : cp.toNat ≤ 0x7F) : utf8ToCodepoint cp.toUInt8 rest = (cp, 0) := by
  have same : cp.toUInt8.toUInt32 = cp := by
    apply UInt32.toNat_inj.mp
    rw [UInt8.toNat_toUInt32, UInt32.toNat_toUInt8]
    exact Nat.mod_eq_of_lt (by omega)
  have ascii : cp < 0x80 := UInt32.lt_iff_toNat_lt.mpr (Nat.lt_succ_of_le most)
  simp only [utf8ToCodepoint, same, ascii, if_true]

theorem utf8_two (least : 0x7F < cp.toNat) (most : cp.toNat ≤ 0x7FF)
    (one : first.toNat = 6 * 2 ^ 5 + cp.toNat / 2 ^ 6 % 2 ^ 5)
    (two : second.toNat = 2 * 2 ^ 6 + cp.toNat / 2 ^ 0 % 2 ^ 6) :
    utf8ToCodepoint first (second :: rest) = (cp, 1) := by
  have above : ¬ first.toUInt32 < 0x80 := by
    rw [first_lt_iff]
    show ¬ (_ < 128)
    omega
  have below : first.toUInt32 < 0xE0 := by
    rw [first_lt_iff]
    show _ < 224
    omega
  have whole : (first.toUInt32 &&& 0x1F) <<< 6 ||| (second.toUInt32 &&& 0x3F) = cp := by
    apply UInt32.toNat_inj.mp
    rw [UInt32.toNat_or, @toNat_place 0x1F 6 5 6 rfl rfl (by decide) (by decide),
      @toNat_below 0x3F 6 rfl, or_above (Nat.mod_lt _ (by decide))]
    omega
  have enough : ¬ cp < 0x80 := by
    rw [UInt32.lt_iff_toNat_lt]
    exact Nat.not_lt.mpr least
  simp [utf8ToCodepoint, above, below, whole, enough]

theorem utf8_three (scalar : Scalar cp) (least : 0x7FF < cp.toNat) (most : cp.toNat ≤ 0xFFFF)
    (one : first.toNat = 14 * 2 ^ 4 + cp.toNat / 2 ^ 12 % 2 ^ 4)
    (two : second.toNat = 2 * 2 ^ 6 + cp.toNat / 2 ^ 6 % 2 ^ 6)
    (three : third.toNat = 2 * 2 ^ 6 + cp.toNat / 2 ^ 0 % 2 ^ 6) :
    utf8ToCodepoint first (second :: third :: rest) = (cp, 2) := by
  have above : ¬ first.toUInt32 < 0x80 ∧ ¬ first.toUInt32 < 0xE0 := by
    rw [first_lt_iff, first_lt_iff]
    show ¬ (_ < 128) ∧ ¬ (_ < 224)
    omega
  have below : first.toUInt32 < 0xF0 := by
    rw [first_lt_iff]
    show _ < 240
    omega
  have whole : (first.toUInt32 &&& 0x0F) <<< 12 ||| (second.toUInt32 &&& 0x3F) <<< 6 |||
      (third.toUInt32 &&& 0x3F) = cp := by
    apply UInt32.toNat_inj.mp
    have middle : second.toNat % 2 ^ 6 * 2 ^ 6 < 2 ^ 12 := by omega
    have upper : first.toNat % 2 ^ 4 * 2 ^ 12 + second.toNat % 2 ^ 6 * 2 ^ 6 =
        (first.toNat % 2 ^ 4 * 2 ^ 6 + second.toNat % 2 ^ 6) * 2 ^ 6 := by
      rw [Nat.add_mul, Nat.mul_assoc, ← Nat.pow_add]
    rw [UInt32.toNat_or, UInt32.toNat_or, @toNat_place 0x0F 12 4 12 rfl rfl (by decide) (by decide),
      @toNat_place 0x3F 6 6 6 rfl rfl (by decide) (by decide), @toNat_below 0x3F 6 rfl,
      or_above middle, upper, or_above (Nat.mod_lt _ (by decide))]
    omega
  have basic : 0xD800 ≤ cp → ¬ cp ≤ 0xDFFF := by
    rw [UInt32.le_iff_toNat_le, UInt32.le_iff_toNat_le]
    show 55296 ≤ _ → ¬ (_ ≤ 57343)
    rcases scalar with low | ⟨high, _⟩ <;> omega
  have enough : ¬ cp < 0x800 := by
    rw [UInt32.lt_iff_toNat_lt]
    exact Nat.not_lt.mpr least
  have long : ¬ rest.length + 1 + 1 < 2 := by omega
  simp [utf8ToCodepoint, above, below, whole, enough, long]
  exact fun high low => absurd low (basic high)

theorem utf8_four (least : 0xFFFF < cp.toNat) (most : cp.toNat ≤ 0x10FFFF)
    (one : first.toNat = 30 * 2 ^ 3 + cp.toNat / 2 ^ 18 % 2 ^ 3)
    (two : second.toNat = 2 * 2 ^ 6 + cp.toNat / 2 ^ 12 % 2 ^ 6)
    (three : third.toNat = 2 * 2 ^ 6 + cp.toNat / 2 ^ 6 % 2 ^ 6)
    (four : fourth.toNat = 2 * 2 ^ 6 + cp.toNat / 2 ^ 0 % 2 ^ 6) :
    utf8ToCodepoint first (second :: third :: fourth :: rest) = (cp, 3) := by
  have above : ¬ first.toUInt32 < 0x80 ∧ ¬ first.toUInt32 < 0xE0 ∧ ¬ first.toUInt32 < 0xF0 := by
    rw [first_lt_iff, first_lt_iff, first_lt_iff]
    show ¬ (_ < 128) ∧ ¬ (_ < 224) ∧ ¬ (_ < 240)
    omega
  have below : first.toUInt32 < 0xF8 := by
    rw [first_lt_iff]
    show _ < 248
    omega
  have whole : (first.toUInt32 &&& 0x07) <<< 18 ||| (second.toUInt32 &&& 0x3F) <<< 12 |||
      (third.toUInt32 &&& 0x3F) <<< 6 ||| (fourth.toUInt32 &&& 0x3F) = cp := by
    apply UInt32.toNat_inj.mp
    have outer : second.toNat % 2 ^ 6 * 2 ^ 12 < 2 ^ 18 := by omega
    have inner : third.toNat % 2 ^ 6 * 2 ^ 6 < 2 ^ 12 := by omega
    have upper : first.toNat % 2 ^ 3 * 2 ^ 18 + second.toNat % 2 ^ 6 * 2 ^ 12 =
        (first.toNat % 2 ^ 3 * 2 ^ 6 + second.toNat % 2 ^ 6) * 2 ^ 12 := by
      rw [Nat.add_mul, Nat.mul_assoc, ← Nat.pow_add]
    have lower (high low : Nat) : high * 2 ^ 12 + low * 2 ^ 6 = (high * 2 ^ 6 + low) * 2 ^ 6 := by
      rw [Nat.add_mul, Nat.mul_assoc, ← Nat.pow_add]
    rw [UInt32.toNat_or, UInt32.toNat_or, UInt32.toNat_or,
      @toNat_place 0x07 18 3 18 rfl rfl (by decide) (by decide),
      @toNat_place 0x3F 12 6 12 rfl rfl (by decide) (by decide),
      @toNat_place 0x3F 6 6 6 rfl rfl (by decide) (by decide), @toNat_below 0x3F 6 rfl,
      or_above outer, upper, or_above inner, lower, or_above (Nat.mod_lt _ (by decide))]
    omega
  have enough : ¬ cp < 0x10000 := by
    rw [UInt32.lt_iff_toNat_lt]
    exact Nat.not_lt.mpr least
  have long : ¬ rest.length + 1 + 1 + 1 < 3 := by omega
  simp [utf8ToCodepoint, above, below, whole, enough, long]

end Forms

/-- The form of a code point is read as that code point, up to its last byte. -/
theorem utf8ToCodepoint_codePointToUTF8 {cp : UInt32} (scalar : Scalar cp) :
    ∃ first tail, codePointToUTF8 cp = first :: tail ∧
      ∀ rest, utf8ToCodepoint first (tail ++ rest) = (cp, tail.length) := by
  have mark2 := @toNat_mark 0xC0 0x1F 6 6 5 6 rfl rfl rfl (by decide) (by decide) cp
  have mark3 := @toNat_mark 0xE0 0xF 12 14 4 12 rfl rfl rfl (by decide) (by decide) cp
  have mark4 := @toNat_mark 0xF0 0x7 18 30 3 18 rfl rfl rfl (by decide) (by decide) cp
  have tail0 := @toNat_mark 0x80 0x3F 0 2 6 0 rfl rfl rfl (by decide) (by decide) cp
  have tail6 := @toNat_mark 0x80 0x3F 6 2 6 6 rfl rfl rfl (by decide) (by decide) cp
  have tail12 := @toNat_mark 0x80 0x3F 12 2 6 12 rfl rfl rfl (by decide) (by decide) cp
  simp only [codePointToUTF8, UInt32.le_iff_toNat_le]
  change ∃ first tail, (if cp.toNat ≤ 127 then _ else if cp.toNat ≤ 2047 then _
    else if cp.toNat ≤ 65535 then _ else if cp.toNat ≤ 1114111 then _ else _) = first :: tail ∧ _
  split_ifs with one two three four
  · exact ⟨_, _, rfl, fun rest => utf8_one rest one⟩
  · exact ⟨_, _, rfl, fun rest => utf8_two rest (Nat.lt_of_not_le one) two mark2 tail0⟩
  · exact ⟨_, _, rfl, fun rest => utf8_three rest scalar (Nat.lt_of_not_le two) three mark3 tail6
      tail0⟩
  · exact ⟨_, _, rfl, fun rest => utf8_four rest (Nat.lt_of_not_le three) four mark4 tail12 tail6
      tail0⟩
  · rcases scalar with low | ⟨_, most⟩ <;> omega

/-- Strings of UTF-8. -/
inductive Utf8 : Bytes → Prop
  | nil : Utf8 []
  | cons {cp : UInt32} (scalar : Scalar cp) {rest : Bytes} (more : Utf8 rest) :
    Utf8 (codePointToUTF8 cp ++ rest)

theorem utf8_ascii {value : Bytes} (ascii : value.all (fun c => c < 128) = true) : Utf8 value := by
  induction value with
  | nil => exact .nil
  | cons c rest ih =>
    rw [List.all_cons, Bool.and_eq_true, decide_eq_true_iff] at ascii
    have small : c.toNat < 128 := UInt8.lt_iff_toNat_lt.mp ascii.1
    have code : c.toUInt32.toNat = c.toNat := UInt8.toNat_toUInt32 c
    have form : codePointToUTF8 c.toUInt32 = [c] := by
      have least : c.toUInt32 ≤ 0x7F := by
        rw [UInt32.le_iff_toNat_le, code]
        exact Nat.le_of_lt_succ small
      rw [codePointToUTF8, if_pos least, UInt8.toUInt8_toUInt32]
    have below : Scalar c.toUInt32 := .inl (by omega)
    have more := Utf8.cons below (ih ascii.2)
    rwa [form] at more

namespace Reader

/-- A piece of a string with no quote that would end it. -/
def Passes (piece : Bytes) : Prop :=
  ∀ tail, readString (piece ++ tail) =
    (readString tail).map (fun read => (piece ++ read.1, read.2))

theorem passes_plain {c : UInt8} (noQuote : c ≠ 34) (noEscape : c ≠ 92) : Passes [c] := by
  intro tail
  cases tail with
  | nil => simp [readString, noQuote]
  | cons next rest => rw [List.singleton_append, readString, if_neg noQuote, if_neg noEscape]; rfl

theorem passes_escape (c : UInt8) : Passes [92, c] := by
  intro tail
  show readString (92 :: c :: tail) = _
  rw [readString, if_neg (by decide), if_pos rfl]
  rfl

theorem Passes.append {first second : Bytes} (one : Passes first) (two : Passes second) :
    Passes (first ++ second) := by
  intro tail
  rw [List.append_assoc, one, two, Option.map_map]
  congr 1
  funext read
  simp

theorem decodeString_plain {c : UInt8} (noQuote : c ≠ 34) (noEscape : c ≠ 92) (rest : Bytes) :
    decodeString (c :: rest) = (decodeString rest).map (fun more => c :: more) := by
  rw [decodeString.eq_def]
  simp only [noQuote, noEscape, if_false]

theorem decodeString_escape {c letter : UInt8} (stands : unescapes.lookup letter = some c)
    (rest : Bytes) :
    decodeString (92 :: letter :: rest) = (decodeString rest).map (fun more => c :: more) := by
  have escape : ¬ (92 : UInt8) = 34 := by decide
  rw [decodeString.eq_def]
  simp only [escape, if_false, if_true, stands]

theorem decodeString_unicode {bytes rest : Bytes} {unicode : UInt32}
    (decoded : decodeUnicodeCodePoint bytes = some (unicode, rest)) :
    decodeString (92 :: 117 :: bytes) =
      (decodeString rest).map (fun more => codePointToUTF8 unicode ++ more) := by
  have escape : ¬ (92 : UInt8) = 34 := by decide
  have letter : unescapes.lookup 117 = none := by decide
  rw [decodeString.eq_def]
  simp only [escape, if_false, if_true, letter]
  split
  · rename_i other later read
    rw [decoded] at read
    cases read
    rfl
  · rename_i read
    rw [decoded] at read
    cases read

/-- A piece of a string that stands for some bytes. -/
structure Denotes (piece decoded : Bytes) : Prop where
  passes : Passes piece
  decodes : ∀ tail, decodeString (piece ++ tail) =
    (decodeString tail).map (fun more => decoded ++ more)

theorem denotes_plain {c : UInt8} (noQuote : c ≠ 34) (noEscape : c ≠ 92) : Denotes [c] [c] := by
  refine ⟨passes_plain noQuote noEscape, fun tail => ?_⟩
  exact decodeString_plain noQuote noEscape tail

theorem denotes_escape {c letter : UInt8} (stands : unescapes.lookup letter = some c) :
    Denotes [92, letter] [c] := by
  exact ⟨passes_escape letter, fun tail => decodeString_escape stands tail⟩

theorem digits_hexByte (byte : UInt8) :
    ∃ high low, hexByte byte = [high, low] ∧ digitOf 16 high = some (byte.toNat / 16) ∧
      digitOf 16 low = some (byte.toNat % 16) := by
  have digit : ∀ value < 16, digitOf 16 ((text "0123456789abcdef").getD value 0) = some value := by
    decide
  have bound := byte.toNat_lt
  exact ⟨_, _, rfl, digit _ (by omega), digit _ (by omega)⟩

theorem passes_digit {c : UInt8} {value : Nat} (digit : digitOf 16 c = some value) : Passes [c] := by
  apply passes_plain
  · rintro rfl
    cases digit
  · rintro rfl
    cases digit

theorem passes_hexByte (byte : UInt8) : Passes (hexByte byte) := by
  obtain ⟨high, low, shape, first, second⟩ := digits_hexByte byte
  rw [shape]
  exact (passes_digit first).append (passes_digit second)

theorem hexEscape_eq (ch : UInt32) :
    hexEscape ch =
      (92 : UInt8) :: 117 :: (hexByte (ch >>> 8).toUInt8 ++ hexByte ch.toUInt8) := by
  have lead : text "\\u" = [92, 117] := by decide
  rw [hexEscape, lead, List.append_assoc]
  rfl

theorem passes_hexEscape (ch : UInt32) : Passes (hexEscape ch) := by
  rw [hexEscape_eq]
  exact (passes_escape 117).append ((passes_hexByte _).append (passes_hexByte _))

theorem decode_hex {ch : UInt32} (small : ch.toNat < 65536) (rest : Bytes) :
    decodeUnicodeEscapeSequence (hexByte (ch >>> 8).toUInt8 ++ hexByte ch.toUInt8 ++ rest) =
      some (ch, rest) := by
  obtain ⟨one, two, upper, first, second⟩ := digits_hexByte (ch >>> 8).toUInt8
  obtain ⟨three, four, lower, third, fourth⟩ := digits_hexByte ch.toUInt8
  have high : (ch >>> 8).toUInt8.toNat = ch.toNat / 256 := by
    rw [UInt32.toNat_toUInt8, UInt32.toNat_shiftRight, Nat.shiftRight_eq_div_pow]
    exact Nat.mod_eq_of_lt (by show ch.toNat / 256 < 256; omega)
  have low : ch.toUInt8.toNat = ch.toNat % 256 := UInt32.toNat_toUInt8 ch
  rw [high] at first second
  rw [low] at third fourth
  rw [upper, lower]
  show decodeUnicodeEscapeSequence (one :: two :: three :: four :: rest) = _
  simp only [decodeUnicodeEscapeSequence, List.mapM_cons, List.mapM_nil, first, second, third,
    fourth, Option.pure_def, Option.bind_eq_bind, Option.bind_some, Option.some.injEq,
    Prod.mk.injEq, and_true]
  apply UInt32.toNat_inj.mp
  rw [UInt32.toNat_ofNat']
  simp only [Numeral.value, List.foldl_cons, List.foldl_nil]
  omega

theorem denotes_basic {cp : UInt32} (small : cp.toNat < 65536)
    (single : cp.toNat < 0xD800 ∨ 0xDBFF < cp.toNat) :
    Denotes (hexEscape cp) (codePointToUTF8 cp) := by
  refine ⟨passes_hexEscape cp, fun tail => ?_⟩
  have apart : ¬ (0xD800 ≤ cp ∧ cp ≤ 0xDBFF) := by
    rw [UInt32.le_iff_toNat_le, UInt32.le_iff_toNat_le]
    show ¬ (55296 ≤ _ ∧ _ ≤ 56319)
    omega
  have decoded : decodeUnicodeCodePoint
      (hexByte (cp >>> 8).toUInt8 ++ hexByte cp.toUInt8 ++ tail) = some (cp, tail) := by
    rw [decodeUnicodeCodePoint, decode_hex small]
    simp only [Option.bind_eq_bind, Option.bind_some, apart, if_false]
  rw [hexEscape_eq]
  exact decodeString_unicode decoded

/-- A code point written as a pair. -/
theorem denotes_pair {cp : UInt32} (least : 0xFFFF < cp.toNat) (most : cp.toNat ≤ 0x10FFFF) :
    Denotes (hexEscape ((0xD800 : UInt32) + ((cp - 0x10000) >>> 10 &&& 0x3FF)) ++
      hexEscape ((0xDC00 : UInt32) + ((cp - 0x10000) &&& 0x3FF))) (codePointToUTF8 cp) := by
  refine ⟨(passes_hexEscape _).append (passes_hexEscape _), fun tail => ?_⟩
  have offset : (cp - 0x10000).toNat = cp.toNat - 65536 :=
    UInt32.toNat_sub_of_le _ _ (UInt32.le_iff_toNat_le.mpr (show 65536 ≤ _ by omega))
  have high : ((cp - 0x10000) >>> 10 &&& 0x3FF).toNat = (cp.toNat - 65536) / 2 ^ 10 % 2 ^ 10 := by
    rw [UInt32.toNat_and, UInt32.toNat_shiftRight, offset, Nat.shiftRight_eq_div_pow, Nat.and_comm]
    exact and_low 10 _
  have low : ((cp - 0x10000) &&& 0x3FF).toNat = (cp.toNat - 65536) % 2 ^ 10 := by
    rw [UInt32.toNat_and, offset, Nat.and_comm]
    exact and_low 10 _
  generalize (cp - 0x10000) >>> 10 &&& 0x3FF = upper at *
  generalize (cp - 0x10000) &&& 0x3FF = lower at *
  have first : ((0xD800 : UInt32) + upper).toNat = 0xD800 + upper.toNat := by
    rw [UInt32.toNat_add]
    exact Nat.mod_eq_of_lt (by show 55296 + _ < 4294967296; omega)
  have second : ((0xDC00 : UInt32) + lower).toNat = 0xDC00 + lower.toNat := by
    rw [UInt32.toNat_add]
    exact Nat.mod_eq_of_lt (by show 56320 + _ < 4294967296; omega)
  have half : (0xD800 : UInt32) ≤ 0xD800 + upper ∧ (0xD800 : UInt32) + upper ≤ 0xDBFF := by
    rw [UInt32.le_iff_toNat_le, UInt32.le_iff_toNat_le, first]
    show 55296 ≤ 55296 + _ ∧ 55296 + _ ≤ 56319
    omega
  have joined : (0x10000 : UInt32) + (((0xD800 + upper) &&& 0x3FF) <<< 10) +
      ((0xDC00 + lower) &&& 0x3FF) = cp := by
    apply UInt32.toNat_inj.mp
    have kept : (((0xD800 : UInt32) + upper) &&& 0x3FF).toNat = upper.toNat ∧
        (((0xDC00 : UInt32) + lower) &&& 0x3FF).toNat = lower.toNat := by
      rw [UInt32.toNat_and, UInt32.toNat_and, first, second]
      have ten (number : Nat) : number &&& 1023 = number % 1024 :=
        Nat.and_two_pow_sub_one_eq_mod number 10
      show (0xD800 + upper.toNat) &&& 1023 = _ ∧ (0xDC00 + lower.toNat) &&& 1023 = _
      rw [ten, ten]
      omega
    rw [UInt32.toNat_add, UInt32.toNat_add, UInt32.toNat_shiftLeft, kept.1, kept.2,
      Nat.shiftLeft_eq]
    show ((65536 + upper.toNat * 2 ^ 10 % 2 ^ 32) % 2 ^ 32 + lower.toNat) % 2 ^ 32 = _
    omega
  have decoded : decodeUnicodeCodePoint (hexByte (((0xD800 : UInt32) + upper) >>> 8).toUInt8 ++
      hexByte ((0xD800 : UInt32) + upper).toUInt8 ++ (hexEscape ((0xDC00 : UInt32) + lower) ++ tail)) =
      some (cp, tail) := by
    rw [decodeUnicodeCodePoint, decode_hex (by omega)]
    simp only [Option.bind_eq_bind, Option.bind_some, half, if_true, and_self, hexEscape_eq,
      List.cons_append]
    rw [decode_hex (by rw [second]; omega)]
    simp only [Option.bind_some, joined]
  rw [hexEscape_eq, List.append_assoc]
  exact decodeString_unicode decoded

theorem Denotes.nil : Denotes [] [] := by
  refine ⟨fun tail => ?_, fun tail => ?_⟩
  · exact Option.map_id'.symm
  · exact Option.map_id'.symm

theorem Denotes.append {first second one two : Bytes} (front : Denotes first one)
    (back : Denotes second two) : Denotes (first ++ second) (one ++ two) := by
  refine ⟨front.passes.append back.passes, fun tail => ?_⟩
  rw [List.append_assoc, front.decodes, back.decodes, Option.map_map]
  congr 1
  funext more
  exact (List.append_assoc one two more).symm

theorem denotes_codepointText {cp : UInt32} (scalar : Scalar cp)
    (noEscape : ∀ c, codePointToUTF8 cp = [c] → escapes.lookup c = none) :
    Denotes (codepointText cp) (codePointToUTF8 cp) := by
  have control : cp < 0x20 ↔ cp.toNat < 32 := UInt32.lt_iff_toNat_lt
  have ascii : cp < 0x80 ↔ cp.toNat < 128 := UInt32.lt_iff_toNat_lt
  have basic : cp < 0x10000 ↔ cp.toNat < 65536 := UInt32.lt_iff_toNat_lt
  simp only [codepointText, control, ascii, basic]
  split_ifs with one two three
  · exact denotes_basic (by omega) (.inl (by omega))
  · have form : codePointToUTF8 cp = [cp.toUInt8] := by
      rw [codePointToUTF8, if_pos (UInt32.le_iff_toNat_le.mpr (Nat.le_of_lt_succ two))]
    have other := noEscape _ form
    rw [form]
    apply denotes_plain
    · intro same
      rw [same] at other
      cases other
    · intro same
      rw [same] at other
      cases other
  · refine denotes_basic three ?_
    rcases scalar with low | ⟨high, _⟩
    · exact .inl low
    · exact .inr (by omega)
  · refine denotes_pair (by omega) ?_
    rcases scalar with low | ⟨_, most⟩
    · omega
    · exact most

theorem unescapes_lookup {c letter : UInt8} (found : escapes.lookup c = some letter) :
    unescapes.lookup letter = some c ∧ c.toUInt32 < 0x80 := by
  have all : escapes.all (fun escape => unescapes.lookup escape.2 == some escape.1 &&
      decide (escape.1.toUInt32 < 0x80)) = true := by decide
  have here := List.all_eq_true.mp all (c, letter) (Sweep.mem_of_lookup found)
  rw [Bool.and_eq_true, beq_iff_eq, decide_eq_true_iff] at here
  exact here

/-- The writer takes one form at a time, and what it makes of it stands for that form. -/
theorem escapeAll_scalar {cp : UInt32} (scalar : Scalar cp) :
    ∃ piece, Denotes piece (codePointToUTF8 cp) ∧
      ∀ rest, escapeAll (codePointToUTF8 cp ++ rest) = piece ++ escapeAll rest := by
  obtain ⟨first, tail, form, reads⟩ := utf8ToCodepoint_codePointToUTF8 scalar
  cases found : escapes.lookup first with
  | some letter =>
    obtain ⟨stands, ascii⟩ := unescapes_lookup found
    have single : tail = [] := by
      have whole := congrArg Prod.snd (reads [])
      rw [utf8ToCodepoint] at whole
      simp only [ascii, if_true] at whole
      exact List.eq_nil_of_length_eq_zero whole.symm
    subst single
    rw [form]
    refine ⟨[92, letter], denotes_escape stands, fun rest => ?_⟩
    show escapeAll (first :: rest) = _
    rw [escapeAll, found]
    rfl
  | none =>
    refine ⟨codepointText cp, denotes_codepointText scalar ?_, fun rest => ?_⟩
    · intro c same
      rw [form] at same
      cases same
      exact found
    · rw [form, List.cons_append, escapeAll, found]
      simp only [reads, List.drop_left]

theorem denotes_escapeAll {value : Bytes} (utf8 : Utf8 value) : Denotes (escapeAll value) value := by
  induction utf8 with
  | nil => rw [escapeAll]; exact Denotes.nil
  | cons scalar more ih =>
    obtain ⟨piece, denotes, writes⟩ := escapeAll_scalar scalar
    rw [writes]
    exact denotes.append ih

theorem denotes_safe {value : Bytes} (safe : doesAnyCharRequireEscaping value = false) :
    Denotes value value := by
  induction value with
  | nil => exact Denotes.nil
  | cons c rest ih =>
    rw [doesAnyCharRequireEscaping, List.any_cons, Bool.or_eq_false_iff] at safe
    have noEscape : c ≠ 92 ∧ c ≠ 34 := by
      have plain := safe.1
      simp only [Bool.or_eq_false_iff, beq_eq_false_iff_ne] at plain
      exact ⟨plain.1.1.1, plain.1.1.2⟩
    exact (denotes_plain noEscape.2 noEscape.1).append (ih safe.2)

theorem cStr_safe {value : Bytes} (safe : doesAnyCharRequireEscaping value = false) :
    cStr value = value := by
  rw [doesAnyCharRequireEscaping, List.any_eq_false] at safe
  rw [cStr, List.takeWhile_eq_self_iff]
  intro c member
  have plain := safe c member
  by_contra nul
  simp only [bne_iff_ne, ne_eq, not_not] at nul
  rw [nul] at plain
  exact plain (by decide)

theorem valueToQuotedStringN_inner {value : Bytes} (utf8 : Utf8 value) :
    ∃ inner, valueToQuotedStringN value = 34 :: (inner ++ [34]) ∧ Denotes inner value := by
  rw [valueToQuotedStringN]
  cases safe : doesAnyCharRequireEscaping value with
  | false =>
    rw [cStr_safe safe]
    exact ⟨value, rfl, denotes_safe safe⟩
  | true => exact ⟨escapeAll value, rfl, denotes_escapeAll utf8⟩

/-- A string of UTF-8 is read back as it was written. -/
theorem readToken_quoted {value : Bytes} (utf8 : Utf8 value) (rest : Bytes) :
    ∃ inner, readToken (valueToQuotedStringN value ++ rest) = (.tokenString inner, rest) ∧
      decodeString inner = some value := by
  obtain ⟨inner, written, denotes⟩ := valueToQuotedStringN_inner utf8
  have quote : readString (34 :: rest) = some ([], rest) := by
    cases rest <;> simp [readString]
  have read : readString (inner ++ 34 :: rest) = some (inner, rest) := by
    rw [denotes.passes, quote, Option.map_some, List.append_nil]
  have decoded : decodeString inner = some value := by
    have whole := denotes.decodes []
    rw [List.append_nil, decodeString] at whole
    rw [whole, Option.map_some, List.append_nil]
  refine ⟨inner, ?_, decoded⟩
  rw [written, List.cons_append, List.append_assoc]
  show readToken (34 :: (inner ++ 34 :: rest)) = _
  have start : skipSpaces (34 :: (inner ++ 34 :: rest)) = 34 :: (inner ++ 34 :: rest) := rfl
  have plain : symbols.lookup 34 = none := by decide
  simp only [readToken, start, plain, if_true, read]

end Reader

end TalusVSwitch.Json
