import TalusVSwitch.JsonReader
import TalusVSwitch.JsonText

namespace TalusVSwitch.Json

/-- The node a number below `2 ^ 64` is read as. -/
def wholeNumber (value : UInt64) : Node :=
  if value ≤ 0x7FFFFFFF then .intValue value.toInt64 else .uintValue value

namespace Reader

theorem isDigit_iff {c : UInt8} : isDigit c = true ↔ 48 ≤ c.toNat ∧ c.toNat ≤ 57 := by
  rw [isDigit, Bool.and_eq_true, decide_eq_true_iff, decide_eq_true_iff, UInt8.le_iff_toNat_le,
    UInt8.le_iff_toNat_le]
  rfl

theorem digitOf_ten {c : UInt8} (digit : isDigit c = true) :
    digitOf 10 c = some (c.toNat - 48) := by
  have code := isDigit_iff.mp digit
  simp only [digitOf, code, and_self, if_true]
  rw [if_pos (by omega)]

theorem isDigit_of_digitOf {c : UInt8} (digit : (digitOf 10 c).isSome) : isDigit c = true := by
  rw [isDigit_iff]
  by_contra other
  simp only [digitOf, other, if_false] at digit
  split_ifs at digit <;> first | omega | cases digit

theorem isDigit_numeralText (number : Nat) : ∀ c ∈ numeralText 10 number, isDigit c = true := by
  intro c member
  exact isDigit_of_digitOf (numeralText_digit (by decide) (by decide) c member)

/-- The value of decimal digits behind those of a number. -/
def continued (value : Nat) (bytes : Bytes) : Nat :=
  bytes.foldl (fun total c => 10 * total + (c.toNat - 48)) value

theorem continued_cons (value : Nat) (c : UInt8) (rest : Bytes) :
    continued value (c :: rest) = continued (10 * value + (c.toNat - 48)) rest := by
  simp only [continued, List.foldl_cons]

theorem le_continued (value : Nat) (bytes : Bytes) : value ≤ continued value bytes := by
  induction bytes generalizing value with
  | nil => exact Nat.le_refl _
  | cons c rest ih =>
    rw [continued_cons]
    exact Nat.le_trans (by omega) (ih _)

theorem continued_zero {bytes : Bytes} (digital : ∀ c ∈ bytes, isDigit c = true) :
    continued 0 bytes = Numeral.value 10 (digits 10 bytes) := by
  have same (value : Nat) : continued value bytes =
      (digits 10 bytes).foldl (fun total digit => 10 * total + digit) value := by
    induction bytes generalizing value with
    | nil => rfl
    | cons c rest ih =>
      have first := digitOf_ten (digital c List.mem_cons_self)
      rw [continued_cons, digits, first, List.foldl_cons]
      exact ih (fun later member => digital later (List.mem_cons_of_mem c member)) _
  exact same 0

theorem toNat_digit {c : UInt8} (least : 48 ≤ c.toNat) :
    ((c - 48).toUInt64).toNat = c.toNat - 48 := by
  rw [UInt8.toNat_toUInt64]
  exact UInt8.toNat_sub_of_le _ _ (UInt8.le_iff_toNat_le.mpr least)

theorem decodeDigits_digital {maxIntegerValue value : UInt64} {bytes : Bytes}
    (large : 10 ≤ maxIntegerValue.toNat) (digital : ∀ c ∈ bytes, isDigit c = true)
    (fits : continued value.toNat bytes ≤ maxIntegerValue.toNat) :
    decodeDigits maxIntegerValue value bytes =
      some (UInt64.ofNat (continued value.toNat bytes)) := by
  induction bytes generalizing value with
  | nil => rw [decodeDigits, continued, List.foldl_nil, UInt64.ofNat_toNat]
  | cons c rest ih =>
    have first := digital c List.mem_cons_self
    have code := isDigit_iff.mp first
    have less := maxIntegerValue.toNat_lt
    have here := le_continued (10 * value.toNat + (c.toNat - 48)) rest
    rw [continued_cons] at fits ⊢
    have digit := toNat_digit code.1
    have next : (value * 10 + (c - 48).toUInt64).toNat = 10 * value.toNat + (c.toNat - 48) := by
      rw [UInt64.toNat_add, UInt64.toNat_mul, digit]
      show (value.toNat * 10 % 2 ^ 64 + _) % 2 ^ 64 = _
      omega
    have within : ¬ (maxIntegerValue / 10 ≤ value ∧ (maxIntegerValue / 10 < value ∨ rest ≠ [] ∨
        maxIntegerValue % 10 < (c - 48).toUInt64)) := by
      rw [UInt64.le_iff_toNat_le, UInt64.lt_iff_toNat_lt, UInt64.lt_iff_toNat_lt, digit,
        UInt64.toNat_div, UInt64.toNat_mod]
      show ¬ (maxIntegerValue.toNat / 10 ≤ _ ∧ (maxIntegerValue.toNat / 10 < _ ∨ _ ∨
        maxIntegerValue.toNat % 10 < _))
      rintro ⟨reached, beyond | more | last⟩
      · omega
      · obtain ⟨second, others, rfl⟩ := List.exists_cons_of_ne_nil more
        have further := le_continued (10 * (10 * value.toNat + (c.toNat - 48)) +
          (second.toNat - 48)) others
        rw [continued_cons] at fits
        omega
      · omega
    have later : continued (value * 10 + (c - 48).toUInt64).toNat rest ≤ maxIntegerValue.toNat := by
      rw [next]
      exact fits
    rw [decodeDigits, first]
    simp only [Bool.not_true, Bool.false_eq_true, if_false, within]
    rw [ih (fun later member => digital later (List.mem_cons_of_mem c member)) later, next]

theorem decodeDigits_numeralText {maxIntegerValue : UInt64} (large : 10 ≤ maxIntegerValue.toNat)
    {value : UInt64} (fits : value ≤ maxIntegerValue) :
    decodeDigits maxIntegerValue 0 (numeralText 10 value.toNat) = some value := by
  have digital := isDigit_numeralText value.toNat
  have whole : continued 0 (numeralText 10 value.toNat) = value.toNat := by
    rw [continued_zero digital, value_numeralText (by decide) (by decide)]
  have read := @decodeDigits_digital _ 0 _ large digital
    (by show continued 0 _ ≤ _; rw [whole]; exact UInt64.le_iff_toNat_le.mp fits)
  rw [read]
  show some (UInt64.ofNat (continued 0 _)) = _
  rw [whole, UInt64.ofNat_toNat]

theorem decodeDigits_real {maxIntegerValue value : UInt64} {bytes : Bytes} {c : UInt8}
    (member : c ∈ bytes) (other : isDigit c = false) :
    decodeDigits maxIntegerValue value bytes = none := by
  induction bytes generalizing value with
  | nil => cases member
  | cons first rest ih =>
    rw [decodeDigits]
    rcases List.mem_cons.mp member with rfl | later
    · rw [other]
      rfl
    · split
      · rfl
      · simp only
        split_ifs
        · rfl
        · exact ih later

variable {strtod : Bytes → Option UInt64}

theorem head_numeralText (number : Nat) : (numeralText 10 number).head? ≠ some 45 := by
  intro minus
  have digit := isDigit_numeralText number 45 (List.mem_of_head? minus)
  cases digit

theorem decodeNumber_uintToString (value : UInt64) :
    decodeNumber strtod (uintToString value) = some (wholeNumber value) := by
  have most : value ≤ 0xFFFFFFFFFFFFFFFF :=
    UInt64.le_iff_toNat_le.mpr (Nat.le_of_lt_succ value.toNat_lt)
  have plus : (uintToString value).head? ≠ some 45 := head_numeralText _
  have read := decodeDigits_numeralText (by decide) most
  rw [decodeNumber, beq_eq_false_iff_ne.mpr plus]
  simp only [Bool.false_eq_true, if_false, Bool.false_and, uintToString, read]
  rw [wholeNumber]
  split_ifs <;> rfl

theorem decodeNumber_negative {value : UInt64} (fits : value ≤ Int64.maxValue.toUInt64 + 1) :
    decodeNumber strtod (text "-" ++ uintToString value) =
      some (.intValue (if value = Int64.maxValue.toUInt64 + 1 then Int64.minValue
        else -value.toInt64)) := by
  have read := decodeDigits_numeralText (by decide) fits
  have sign : text "-" ++ uintToString value = 45 :: uintToString value := by
    rw [show text "-" = [45] by decide]
    rfl
  rw [decodeNumber, sign]
  simp only [List.head?_cons, beq_self_eq_true, if_true, List.drop_one, List.tail_cons,
    uintToString, read, Bool.true_and]
  split_ifs <;> simp_all

/-- What a number is read as. -/
def signedNumber (value : Int64) : Node :=
  if value < 0 then .intValue value else wholeNumber value.toUInt64

theorem decodeNumber_intToString (value : Int64) :
    decodeNumber strtod (intToString value) = some (signedNumber value) := by
  rw [intToString, signedNumber]
  split_ifs with least below above
  · rw [decodeNumber_negative (UInt64.le_refl _), if_pos rfl, least]
  · subst least
    exact absurd (by decide) below
  · have turned : (-value).toInt = -value.toInt := by
      have bound := Int64.le_toInt value
      have other : value.toInt ≠ Int64.minValue.toInt := fun same => least (Int64.toInt_inj.mp same)
      have low : Int64.minValue.toInt = -2 ^ 63 := by decide
      have negative := Int64.lt_iff_toInt_lt.mp above
      have zero : (0 : Int64).toInt = 0 := rfl
      rw [Int64.toInt_neg, Int.bmod]
      omega
    have positive : 0 ≤ -value := by
      have negative := Int64.lt_iff_toInt_lt.mp above
      have zero : (0 : Int64).toInt = 0 := rfl
      rw [Int64.le_iff_toInt_le, turned]
      omega
    have fits := Int64.toUInt64_le positive (Int64.le_maxValue (-value))
    have less : (-value).toUInt64 < Int64.maxValue.toUInt64 + 1 :=
      UInt64.lt_of_le_of_lt fits (by decide)
    rw [decodeNumber_negative (UInt64.le_of_lt less), if_neg (UInt64.ne_of_lt less),
      Int64.toInt64_toUInt64, Int64.neg_neg]
  · exact decodeNumber_uintToString _

/-! ### The text of a number -/

def Digital (bytes : Bytes) : Prop := bytes ≠ [] ∧ ∀ c ∈ bytes, isDigit c = true

inductive Sign : Bytes → Prop
  | none : Sign []
  | minus : Sign [45]

inductive Fraction (point : UInt8) : Bytes → Prop
  | none : Fraction point []
  | some {digits : Bytes} (digital : Digital digits) : Fraction point (point :: digits)

inductive Exponent : Bytes → Prop
  | none : Exponent []
  | some {sign : UInt8} (signed : sign = 43 ∨ sign = 45) {digits : Bytes}
    (digital : Digital digits) : Exponent (101 :: sign :: digits)

/-- The texts of numbers, with a point that may be the comma of a locale. -/
inductive Number (point : UInt8) : Bytes → Prop
  | intro {sign whole fraction exponent : Bytes} (signed : Sign sign) (digital : Digital whole)
    (pointed : Fraction point fraction) (scaled : Exponent exponent) :
    Number point (sign ++ (whole ++ (fraction ++ exponent)))

/-- What ends a number. -/
def Fenced (rest : Bytes) : Prop :=
  ∀ c, rest.head? = some c → isDigit c = false ∧ c ≠ 46 ∧ c ≠ 101 ∧ c ≠ 69

theorem fenced_nil : Fenced [] := by
  intro c none
  cases none

theorem dropWhile_isDigit {digits rest : Bytes} (digital : ∀ c ∈ digits, isDigit c = true)
    (stop : ∀ c, rest.head? = some c → isDigit c = false) :
    (digits ++ rest).dropWhile isDigit = rest := by
  rw [List.dropWhile_append_of_pos digital]
  cases rest with
  | nil => rfl
  | cons c later => rw [List.dropWhile_cons, stop c rfl]; rfl

theorem readExponent_ends {exponent rest : Bytes} (scaled : Exponent exponent)
    (fenced : Fenced rest) : readExponent (exponent ++ rest) = rest := by
  cases scaled with
  | none =>
    cases rest with
    | nil => rfl
    | cons c later =>
      obtain ⟨-, -, lower, upper⟩ := fenced c rfl
      rw [List.nil_append, readExponent, if_neg (by simp [lower, upper])]
  | @some sign signed digits digital =>
    have skipped : skipSign (sign :: (digits ++ rest)) = digits ++ rest := by
      rw [skipSign, if_pos signed]
    rw [List.cons_append, readExponent, if_pos (.inl rfl), List.cons_append, skipped]
    exact dropWhile_isDigit digital.2 (fun c first => (fenced c first).1)

theorem head_exponent {exponent rest : Bytes} (scaled : Exponent exponent) (fenced : Fenced rest) :
    ∀ c, (exponent ++ rest).head? = some c → isDigit c = false ∧ c ≠ 46 := by
  intro c first
  cases scaled with
  | none => exact ⟨(fenced c first).1, (fenced c first).2.1⟩
  | some => cases first; decide

theorem readFraction_ends {fraction exponent rest : Bytes} (pointed : Fraction 46 fraction)
    (scaled : Exponent exponent) (fenced : Fenced rest) :
    readFraction (fraction ++ (exponent ++ rest)) = exponent ++ rest := by
  have next := head_exponent scaled fenced
  cases pointed with
  | none =>
    rw [List.nil_append]
    cases shape : exponent ++ rest with
    | nil => rfl
    | cons c later =>
      rw [shape] at next
      rw [readFraction, if_neg (next c rfl).2]
  | some digital =>
    rw [List.cons_append, readFraction, if_pos rfl]
    exact dropWhile_isDigit digital.2 (fun c first => (next c first).1)

theorem head_fraction {fraction exponent rest : Bytes} (pointed : Fraction 46 fraction)
    (scaled : Exponent exponent) (fenced : Fenced rest) :
    ∀ c, (fraction ++ (exponent ++ rest)).head? = some c → isDigit c = false := by
  intro c first
  cases pointed with
  | none => exact (head_exponent scaled fenced c first).1
  | some => cases first; decide

theorem readNumber_ends {digits fraction exponent rest : Bytes}
    (digital : ∀ c ∈ digits, isDigit c = true) (pointed : Fraction 46 fraction)
    (scaled : Exponent exponent) (fenced : Fenced rest) :
    readNumber (digits ++ (fraction ++ (exponent ++ rest))) = rest := by
  rw [readNumber, dropWhile_isDigit digital (head_fraction pointed scaled fenced),
    readFraction_ends pointed scaled fenced, readExponent_ends scaled fenced]

theorem readToken_numeric {c : UInt8} (numeric : (isDigit c || c == 45) = true) {behind rest : Bytes}
    (ends : readNumber (behind ++ rest) = rest) :
    readToken (c :: (behind ++ rest)) = (.tokenNumber (c :: behind), rest) := by
  have codes : ∀ code < 58, (isDigit (UInt8.ofNat code) || UInt8.ofNat code == 45) = true →
      symbols.lookup (UInt8.ofNat code) = none ∧ UInt8.ofNat code ≠ 34 ∧ UInt8.ofNat code ≠ 47 ∧
      skipSpaces [UInt8.ofNat code] = [UInt8.ofNat code] := by decide
  have bound : c.toNat < 58 := by
    rcases Bool.or_eq_true_iff.mp numeric with digit | minus
    · exact Nat.lt_succ_of_le (isDigit_iff.mp digit).2
    · rw [eq_of_beq minus]
      decide
  obtain ⟨symbol, quote, slash, space⟩ := codes c.toNat bound (by rwa [UInt8.ofNat_toNat])
  rw [UInt8.ofNat_toNat] at symbol quote slash space
  have start : skipSpaces (c :: (behind ++ rest)) = c :: (behind ++ rest) := by
    rw [skipSpaces, List.dropWhile_cons] at space ⊢
    split_ifs at space ⊢
    · cases space
    · rfl
  have taken : (behind ++ rest).take ((behind ++ rest).length - rest.length) = behind := by
    rw [List.length_append, Nat.add_sub_cancel, List.take_left]
  simp only [readToken, start, symbol, quote, slash, numeric, if_false, if_true, ends, taken]

theorem readToken_number {text rest : Bytes} (number : Number 46 text) (fenced : Fenced rest) :
    readToken (text ++ rest) = (.tokenNumber text, rest) := by
  obtain @⟨sign, whole, fraction, exponent, signed, digital, pointed, scaled⟩ := number
  cases signed with
  | minus =>
    have ends := readNumber_ends digital.2 pointed scaled fenced
    rw [← List.append_assoc fraction, ← List.append_assoc whole] at ends
    exact readToken_numeric rfl ends
  | none =>
    obtain ⟨first, later, rfl⟩ := List.exists_cons_of_ne_nil digital.1
    have ends := readNumber_ends (fun c member => digital.2 c (List.mem_cons_of_mem _ member))
      pointed scaled fenced
    rw [← List.append_assoc fraction, ← List.append_assoc later] at ends
    refine readToken_numeric ?_ ends
    rw [digital.2 first List.mem_cons_self, Bool.true_or]

theorem digital_numeralText (value : Nat) : Digital (numeralText 10 value) :=
  ⟨numeralText_ne_nil 10 value, isDigit_numeralText value⟩

theorem number_uintToString (point : UInt8) (value : UInt64) :
    Number point (uintToString value) := by
  have number := Number.intro Sign.none (digital_numeralText value.toNat)
    (@Fraction.none point) Exponent.none
  rwa [List.append_nil, List.append_nil] at number

theorem number_intToString (point : UInt8) (value : Int64) : Number point (intToString value) := by
  have minus (value : UInt64) : Number point (text "-" ++ uintToString value) := by
    have number := Number.intro Sign.minus (digital_numeralText value.toNat)
      (@Fraction.none point) Exponent.none
    rwa [List.append_nil, List.append_nil] at number
  rw [intToString]
  split_ifs
  · exact minus _
  · exact minus _
  · exact number_uintToString point _

/-! ### Doubles -/

/-- What the C library and the stream make of a finite `double`: its text is that of a
number, in some locale, and its seventeen digits are read as the same `double`. -/
structure Exchanged (printf : Printf) (strtod : Bytes → Option UInt64) (bits : UInt64) : Prop where
  finite : isfinite bits = true
  printed : ∃ point, (point = 46 ∨ point = 44) ∧ Number point (printf.print bits)
  extracted : strtod (realToString printf bits) = some bits

/-- `fixNumericLocale` changes the point and nothing else. -/
theorem Number.localised {point : UInt8} {text : Bytes} (number : Number point text)
    (known : point = 46 ∨ point = 44) :
    Number 46 (text.map (fun byte => if byte = 44 then 46 else byte)) := by
  have kept {digits : Bytes} (digital : Digital digits) :
      digits.map (fun byte => if byte = 44 then 46 else byte) = digits := by
    refine (List.map_congr_left (fun c member => ?_)).trans (List.map_id digits)
    rw [if_neg, id]
    rintro rfl
    cases digital.2 44 member
  obtain @⟨sign, whole, fraction, exponent, signed, digital, pointed, scaled⟩ := number
  rw [List.map_append, List.map_append, List.map_append, kept digital]
  refine .intro ?_ digital ?_ ?_
  · cases signed with
    | none => exact .none
    | minus => exact .minus
  · cases pointed with
    | none => exact .none
    | some behind =>
      have replaced : (if point = 44 then 46 else point) = (46 : UInt8) := by
        rcases known with rfl | rfl <;> rfl
      rw [List.map_cons, replaced, kept behind]
      exact .some behind
  · cases scaled with
    | none => exact .none
    | @some sign which digits behind =>
      have other : (if sign = 44 then 46 else sign) = sign := by
        rcases which with rfl | rfl <;> rfl
      rw [List.map_cons, List.map_cons, kept behind, other]
      exact .some which behind

/-- What has neither a point nor an exponent is an integer, until `.0` is put behind it. -/
theorem Number.pointed {text : Bytes} (number : Number 46 text) (noPoint : text.contains 46 = false)
    (noExponent : text.contains 101 = false) : Number 46 (text ++ [46, 48]) := by
  obtain @⟨sign, whole, fraction, exponent, signed, digital, pointed, scaled⟩ := number
  have zero : Digital [48] := ⟨List.cons_ne_nil _ _, List.all_eq_true.mp (by decide)⟩
  cases pointed with
  | some => simp at noPoint
  | none =>
    cases scaled with
    | some => simp at noExponent
    | none =>
      have whole := Number.intro signed digital (@Fraction.some 46 _ zero) Exponent.none
      simpa using whole

theorem number_realToString {printf : Printf} {bits : UInt64}
    (exchanged : Exchanged printf strtod bits) :
    Number 46 (realToString printf bits) ∧
      ∃ c ∈ realToString printf bits, c = 46 ∨ c = 101 := by
  obtain ⟨point, known, printed⟩ := exchanged.printed
  have number := printed.localised known
  have suffix : text ".0" = [46, 48] := by decide
  simp only [realToString, exchanged.finite, Bool.not_true, Bool.false_eq_true, if_false]
  split_ifs with whole
  · simp only [Bool.and_eq_true, Bool.not_eq_true'] at whole
    rw [suffix]
    exact ⟨number.pointed whole.1 whole.2, 46, by simp, .inl rfl⟩
  · refine ⟨number, ?_⟩
    simp only [Bool.and_eq_true, Bool.not_eq_true', not_and_or, Bool.not_eq_false,
      List.contains_iff_mem] at whole
    rcases whole with member | member
    · exact ⟨46, member, .inl rfl⟩
    · exact ⟨101, member, .inr rfl⟩

theorem decodeNumber_real {token : Bytes} {c : UInt8} (member : c ∈ token)
    (real : c = 46 ∨ c = 101) : decodeNumber strtod token = (strtod token).map Node.realValue := by
  have other : isDigit c = false ∧ c ≠ 45 := by
    rcases real with rfl | rfl <;> decide
  rw [decodeNumber]
  split_ifs with negative
  · obtain ⟨rest, rfl⟩ : ∃ rest, token = 45 :: rest := by
      cases token with
      | nil => cases member
      | cons first rest => cases eq_of_beq negative; exact ⟨rest, rfl⟩
    have later : c ∈ rest := (List.mem_cons.mp member).resolve_left other.2
    simp only [List.drop_one, List.tail_cons, decodeDigits_real later other.1]
  · simp only [decodeDigits_real member other.1]

/-- A finite `double` is read back. -/
theorem decodeNumber_realToString {printf : Printf} {bits : UInt64}
    (exchanged : Exchanged printf strtod bits) :
    decodeNumber strtod (realToString printf bits) = some (.realValue bits) := by
  obtain ⟨-, c, member, real⟩ := number_realToString exchanged
  rw [decodeNumber_real member real, exchanged.extracted, Option.map_some]

end Reader

end TalusVSwitch.Json
