import TalusVSwitch.JsonValue
import TalusVSwitch.MacText

namespace TalusVSwitch

/-- One end of `toolkit::trim`: the front of a string up to the first character not among
`chars`. `none` is the exception of `map.at`: the table of characters has no place for
`0xFF`. -/
def trimFront (chars : Bytes) : Bytes → Option Bytes
  | [] => some []
  | byte :: rest =>
    if byte = 0xFF then none
    else if chars.contains byte then trimFront chars rest
    else some (byte :: rest)

/-- `toolkit::trim`, with its default characters. -/
def trim (bytes : Bytes) : Option Bytes := do
  let chars := text " \r\n\t"
  let front ← trimFront chars bytes.reverse
  trimFront chars front.reverse

theorem trimFront_of_notMem (chars : Bytes) {bytes : Bytes} (plain : 0xFF ∉ bytes) :
    ∃ front, trimFront chars bytes = some front ∧ 0xFF ∉ front := by
  induction bytes with
  | nil => exact ⟨[], rfl, plain⟩
  | cons byte rest ih =>
    have ⟨other, later⟩ : 0xFF ≠ byte ∧ 0xFF ∉ rest := by simpa using plain
    rw [trimFront, if_neg (Ne.symm other)]
    split
    · exact ih later
    · exact ⟨byte :: rest, rfl, plain⟩

/-- Without the character the table has no place for, `trim` does not throw. -/
theorem trim_of_notMem {bytes : Bytes} (plain : 0xFF ∉ bytes) :
    ∃ trimmed, trim bytes = some trimmed := by
  have back : 0xFF ∉ bytes.reverse := by simpa using plain
  obtain ⟨front, found, still⟩ := trimFront_of_notMem (text " \r\n\t") back
  have forth : 0xFF ∉ front.reverse := by simpa using still
  obtain ⟨trimmed, last, -⟩ := trimFront_of_notMem (text " \r\n\t") forth
  exact ⟨trimmed, by rw [trim, found, Option.bind_eq_bind, Option.bind_some, last]⟩

namespace Json

/-- `snprintf` of a finite `double` with `"%.17g"`. The text of a number has no character
`0xFF`. -/
structure Printf where
  print : UInt64 → Bytes
  plain : ∀ bits, 0xFF ∉ print bits

def isfinite (bits : UInt64) : Bool := bits >>> 52 &&& 0x7FF != 0x7FF

def isnan (bits : UInt64) : Bool := !isfinite bits && bits &&& 0xFFFFFFFFFFFFF != 0

/-- `valueToString` of a `double`. -/
def realToString (printf : Printf) (bits : UInt64) : Bytes :=
  if !isfinite bits then
    if isnan bits then text "null"
    else if bits >>> 63 = 1 then text "-1e+9999"
    else text "1e+9999"
  else
    -- `fixNumericLocale`
    let buffer := (printf.print bits).map (fun byte => if byte = 44 then 46 else byte)
    if !buffer.contains 46 && !buffer.contains 101 then buffer ++ text ".0" else buffer

/-- `valueToString` of a `LargestUInt`. -/
def uintToString (value : UInt64) : Bytes := numeralText 10 value.toNat

/-- `valueToString` of a `LargestInt`. -/
def intToString (value : Int64) : Bytes :=
  if value = Int64.minValue then text "-" ++ uintToString (Int64.maxValue.toUInt64 + 1)
  else if value < 0 then text "-" ++ uintToString (-value).toUInt64
  else uintToString value.toUInt64

def doesAnyCharRequireEscaping (value : Bytes) : Bool :=
  value.any (fun c => c == 92 || c == 34 || c < 0x20 || 0x7F < c)

/-- `utf8ToCodepoint`, with how many bytes more than the first it took. -/
def utf8ToCodepoint (first : UInt8) (rest : Bytes) : UInt32 × Nat :=
  let REPLACEMENT_CHARACTER : UInt32 := 0xFFFD
  let firstByte := first.toUInt32
  let tail (index : Nat) : UInt32 := (rest.getD index 0).toUInt32 &&& 0x3F
  if firstByte < 0x80 then (firstByte, 0)
  else if firstByte < 0xE0 then
    if rest.length < 1 then (REPLACEMENT_CHARACTER, 0)
    else
      let calculated := (firstByte &&& 0x1F) <<< 6 ||| tail 0
      (if calculated < 0x80 then REPLACEMENT_CHARACTER else calculated, 1)
  else if firstByte < 0xF0 then
    if rest.length < 2 then (REPLACEMENT_CHARACTER, 0)
    else
      let calculated := (firstByte &&& 0x0F) <<< 12 ||| tail 0 <<< 6 ||| tail 1
      if 0xD800 ≤ calculated && calculated ≤ 0xDFFF then (REPLACEMENT_CHARACTER, 2)
      else (if calculated < 0x800 then REPLACEMENT_CHARACTER else calculated, 2)
  else if firstByte < 0xF8 then
    if rest.length < 3 then (REPLACEMENT_CHARACTER, 0)
    else
      let calculated :=
        (firstByte &&& 0x07) <<< 18 ||| tail 0 <<< 12 ||| tail 1 <<< 6 ||| tail 2
      (if calculated < 0x10000 then REPLACEMENT_CHARACTER else calculated, 3)
  else (REPLACEMENT_CHARACTER, 0)

/-- What `appendHex` appends: four digits of `toHex16Bit` after `\u`. -/
def hexEscape (ch : UInt32) : Bytes :=
  text "\\u" ++ hexByte (ch >>> 8).toUInt8 ++ hexByte ch.toUInt8

/-- What is appended for a code point. -/
def codepointText (codepoint : UInt32) : Bytes :=
  if codepoint < 0x20 then hexEscape codepoint
  else if codepoint < 0x80 then [codepoint.toUInt8]
  else if codepoint < 0x10000 then hexEscape codepoint
  else
    let codepoint := codepoint - 0x10000
    let high : UInt32 := codepoint >>> 10 &&& 0x3FF
    let low : UInt32 := codepoint &&& 0x3FF
    hexEscape (0xD800 + high) ++ hexEscape (0xDC00 + low)

/-- The characters with an escape of their own, and the letter behind the backslash: the
quote, the backslash, and `\b`, `\f`, `\n`, `\r`, `\t`. -/
def escapes : List (UInt8 × UInt8) :=
  [(34, 34), (92, 92), (8, 98), (12, 102), (10, 110), (13, 114), (9, 116)]

/-- The loop of `valueToQuotedStringN`. -/
def escapeAll : Bytes → Bytes
  | [] => []
  | c :: rest =>
    match escapes.lookup c with
    | some letter => 92 :: letter :: escapeAll rest
    | none =>
      let decoded := utf8ToCodepoint c rest
      codepointText decoded.1 ++ escapeAll (rest.drop decoded.2)
termination_by value => value.length

/-- `valueToQuotedStringN`. A string that needs no escape is appended as a C string. -/
def valueToQuotedStringN (value : Bytes) : Bytes :=
  if !doesAnyCharRequireEscaping value then text "\"" ++ cStr value ++ text "\""
  else text "\"" ++ escapeAll value ++ text "\""

namespace FastWriter

/-- The elements of an array at all indices below its size. What has no entry is `null`. -/
def elements (size : ArrayIndex) (written : List (ArrayIndex × Bytes)) : List Bytes :=
  (List.range size.toNat).map (fun index =>
    (written.lookup (UInt32.ofNat index)).getD (text "null"))

mutual

/-- `FastWriter::writeValue` -/
def writeValue (printf : Printf) : Node → Bytes
  | .nullValue => text "null"
  | .intValue value => intToString value
  | .uintValue value => uintToString value
  | .realValue bits => realToString printf bits
  | .stringValue value => valueToQuotedStringN value
  | .booleanValue value => if value then text "true" else text "false"
  | .arrayValue items =>
    text "[" ++ (text ",").intercalate
      (elements (Node.arrayValue items).size (writeItems printf items)) ++ text "]"
  | .objectValue members =>
    text "\x7b" ++ (text ",").intercalate (writeMembers printf members) ++ text "\x7d"

def writeItems (printf : Printf) : Items → List (ArrayIndex × Bytes)
  | [] => []
  | (index, child) :: rest => (index, writeValue printf child) :: writeItems printf rest

def writeMembers (printf : Printf) : Members → List Bytes
  | [] => []
  | (name, child) :: rest =>
    (valueToQuotedStringN name ++ text ":" ++ writeValue printf child) :: writeMembers printf rest

end

/-- `FastWriter::write` -/
def write (printf : Printf) (root : Value) : Bytes := writeValue printf root.node ++ text "\n"

end FastWriter

/-! ### No text has the character `0xFF` -/

theorem plain_escapes {c letter : UInt8} (found : escapes.lookup c = some letter) :
    letter ≠ 0xFF := by
  have others : ∀ escape ∈ escapes, escape.2 ≠ 0xFF := by simp [escapes]
  exact others (c, letter) (Sweep.mem_of_lookup found)

theorem plain_hexByte (byte : UInt8) : 0xFF ∉ hexByte byte := by
  have digit : ∀ value < 16, (text "0123456789abcdef").getD value 0 ≠ 0xFF := by decide
  have bound := byte.toNat_lt
  have high := digit (byte.toNat / 16) (by omega)
  have low := digit (byte.toNat % 16) (by omega)
  simp only [hexByte, List.mem_cons, List.not_mem_nil, or_false, not_or]
  exact ⟨high.symm, low.symm⟩

theorem plain_hexEscape (ch : UInt32) : 0xFF ∉ hexEscape ch := by
  have lead : 0xFF ∉ text "\\u" := by decide
  simp only [hexEscape, List.mem_append, not_or]
  exact ⟨⟨lead, plain_hexByte _⟩, plain_hexByte _⟩

theorem plain_codepointText (codepoint : UInt32) : 0xFF ∉ codepointText codepoint := by
  rw [codepointText]
  split_ifs with control ascii basic
  · exact plain_hexEscape _
  · rw [List.mem_singleton]
    intro same
    have value := congrArg UInt8.toNat same
    rw [UInt32.lt_iff_toNat_lt] at ascii
    rw [UInt32.toNat_toUInt8] at value
    have code : (0x80 : UInt32).toNat = 128 := rfl
    have full : (0xFF : UInt8).toNat = 255 := rfl
    omega
  · exact plain_hexEscape _
  · simp only [List.mem_append, not_or]
    exact ⟨plain_hexEscape _, plain_hexEscape _⟩

theorem plain_escapeAll (value : Bytes) : 0xFF ∉ escapeAll value := by
  induction value using escapeAll.induct with
  | case1 => simp [escapeAll]
  | case2 c rest letter found ih =>
    rw [escapeAll, found]
    simp [(plain_escapes found).symm, ih]
  | case3 c rest found decoded ih =>
    rw [escapeAll, found]
    simp only [List.mem_append, not_or]
    exact ⟨plain_codepointText _, ih⟩

theorem plain_valueToQuotedStringN (value : Bytes) : 0xFF ∉ valueToQuotedStringN value := by
  have quote : 0xFF ∉ text "\"" := by decide
  rw [valueToQuotedStringN]
  split_ifs with safe
  · simp only [List.mem_append, not_or]
    refine ⟨⟨quote, ?_⟩, quote⟩
    intro member
    have present := (List.takeWhile_sublist _).subset member
    rw [Bool.not_eq_true', doesAnyCharRequireEscaping, List.any_eq_false] at safe
    exact safe 0xFF present (by decide)
  · simp only [List.mem_append, not_or]
    exact ⟨⟨quote, plain_escapeAll value⟩, quote⟩

theorem plain_numeralText (number : Nat) : 0xFF ∉ numeralText 10 number :=
  numeralText_notMem (by decide) (by decide) number (by decide)

theorem plain_intToString (value : Int64) : 0xFF ∉ intToString value := by
  have sign : 0xFF ∉ text "-" := by decide
  rw [intToString]
  split_ifs
  · simpa only [List.mem_append, not_or] using ⟨sign, plain_numeralText _⟩
  · simpa only [List.mem_append, not_or] using ⟨sign, plain_numeralText _⟩
  · exact plain_numeralText _

theorem plain_realToString (printf : Printf) (bits : UInt64) : 0xFF ∉ realToString printf bits := by
  have printed : 0xFF ∉ (printf.print bits).map (fun byte => if byte = 44 then 46 else byte) := by
    intro member
    obtain ⟨byte, present, same⟩ := List.mem_map.mp member
    split_ifs at same
    · cases same
    · exact printf.plain bits (same ▸ present)
  have point : 0xFF ∉ text ".0" := by decide
  simp only [realToString]
  split_ifs
  · decide
  · decide
  · decide
  · simp only [List.mem_append, not_or]
    exact ⟨printed, point⟩
  · exact printed

namespace FastWriter

theorem writeItems_eq (printf : Printf) (items : Items) :
    writeItems printf items = items.map (fun item => (item.1, writeValue printf item.2)) := by
  induction items with
  | nil => rfl
  | cons item rest ih => rw [writeItems, ih, List.map_cons]

theorem writeMembers_eq (printf : Printf) (members : Members) :
    writeMembers printf members = members.map (fun member =>
      valueToQuotedStringN member.1 ++ text ":" ++ writeValue printf member.2) := by
  induction members with
  | nil => rfl
  | cons member rest ih => rw [writeMembers, ih, List.map_cons]

theorem plain_writeValue (printf : Printf) (node : Node) : 0xFF ∉ writeValue printf node := by
  induction node using Node.induction with
  | leaf node noArray noObject =>
    cases node with
    | arrayValue => cases noArray
    | objectValue => cases noObject
    | nullValue => exact (by decide : 0xFF ∉ text "null")
    | intValue value => exact plain_intToString value
    | uintValue value => exact plain_numeralText _
    | realValue bits => exact plain_realToString printf bits
    | stringValue value => exact plain_valueToQuotedStringN value
    | booleanValue value =>
      cases value with
      | false => exact (by decide : 0xFF ∉ text "false")
      | true => exact (by decide : 0xFF ∉ text "true")
  | array items ih =>
    have brackets : 0xFF ∉ text "[" ∧ 0xFF ∉ text "]" := by decide
    rw [writeValue, writeItems_eq]
    simp only [List.mem_append, not_or]
    refine ⟨⟨brackets.1, Pieces.notMem_intercalate ?_ (by decide)⟩, brackets.2⟩
    intro part present
    obtain ⟨index, -, rfl⟩ := List.mem_map.mp present
    cases found : (items.map (fun item => (item.1, writeValue printf item.2))).lookup
        (UInt32.ofNat index) with
    | none => exact (by decide : 0xFF ∉ text "null")
    | some written =>
      obtain ⟨item, member, same⟩ := List.mem_map.mp (Sweep.mem_of_lookup found)
      obtain ⟨-, rfl⟩ := Prod.mk.inj same
      exact ih item member
  | object members ih =>
    have braces : 0xFF ∉ text "\x7b" ∧ 0xFF ∉ text "\x7d" := by decide
    have colon : 0xFF ∉ text ":" := by decide
    rw [writeValue, writeMembers_eq]
    simp only [List.mem_append, not_or]
    refine ⟨⟨braces.1, Pieces.notMem_intercalate ?_ (by decide)⟩, braces.2⟩
    intro part present
    obtain ⟨member, there, rfl⟩ := List.mem_map.mp present
    simp only [List.mem_append, not_or]
    exact ⟨⟨plain_valueToQuotedStringN member.1, colon⟩, ih member there⟩

end FastWriter

end Json

end TalusVSwitch
