import Mathlib.Data.List.Forall2
import TalusVSwitch.CText

namespace TalusVSwitch

/-- The six bytes of a MAC address, `reinterpret_cast<char*>(&mac) + 2`. -/
def macBytes (mac : Mac) : Bytes :=
  (List.range 6).map (fun index => (mac >>> UInt64.ofNat (16 + 8 * index)).toUInt8)

/-- A zeroed `uint64_t` after six bytes are written from its third byte on. -/
def macOfBytes (bytes : Bytes) : Mac := UInt64.ofNat (littleEndian (0 :: 0 :: bytes))

/-- One byte as two hexadecimal digits. -/
def hexByte (byte : UInt8) : Bytes :=
  let digits := text "0123456789abcdef"
  [digits.getD (byte.toNat / 16) 0, digits.getD (byte.toNat % 16) 0]

/-- `uint64ToMacStr` -/
def uint64ToMacStr (mac : Mac) : Bytes :=
  (text ":").intercalate ((macBytes mac).map hexByte)

/-- The loop of `macToUint64`: each part as the byte it is stored in. -/
def storeParts : List Bytes → Option Bytes
  | [] => some []
  | item :: rest => do
    let value ← stoi item 16
    let stored ← storeParts rest
    some (toUInt8 value :: stored)

/-- `macToUint64`. `none` is an exception of `stoi`. -/
def macToUint64 (macAddress : Bytes) : Option Mac :=
  let parts := split macAddress 58
  if parts.length ≠ 6 then some 0
  else (storeParts parts).map macOfBytes

/-- One or two hexadecimal digits, of either case, for a byte. -/
def SpellsByte (group : Bytes) (byte : UInt8) : Prop :=
  (group.length = 1 ∨ group.length = 2) ∧ (∀ char ∈ group, (digitOf 16 char).isSome) ∧
    Numeral.value 16 (digits 16 group) = byte.toNat

/-- A text that spells bytes, a colon between each two. -/
def Spells (macAddress bytes : Bytes) : Prop :=
  ∃ groups : List Bytes, macAddress = [58].intercalate groups ∧
    List.Forall₂ SpellsByte groups bytes

/-- The MAC grammar: six groups of one or two hexadecimal digits. -/
def IsMacText (macAddress : Bytes) : Prop :=
  ∃ bytes : Bytes, bytes.length = 6 ∧ Spells macAddress bytes

theorem macOfBytes_toNat {bytes : Bytes} (six : bytes.length = 6) :
    (macOfBytes bytes).toNat = 65536 * littleEndian bytes := by
  obtain ⟨b0, b1, b2, b3, b4, b5, rfl⟩ : ∃ b0 b1 b2 b3 b4 b5, bytes = [b0, b1, b2, b3, b4, b5] := by
    rcases bytes with _ | ⟨b0, _ | ⟨b1, _ | ⟨b2, _ | ⟨b3, _ | ⟨b4, _ | ⟨b5, _ | _⟩⟩⟩⟩⟩⟩ <;>
      simp at six ⊢
  have bound0 := b0.toNat_lt
  have bound1 := b1.toNat_lt
  have bound2 := b2.toNat_lt
  have bound3 := b3.toNat_lt
  have bound4 := b4.toNat_lt
  have bound5 := b5.toNat_lt
  simp only [macOfBytes, littleEndian, UInt64.toNat_ofNat', UInt8.toNat_zero, Nat.reducePow] at *
  omega

theorem littleEndian_injective {one other : Bytes} (same : one.length = other.length)
    (equal : littleEndian one = littleEndian other) : one = other := by
  induction one generalizing other with
  | nil =>
    rw [List.length_nil] at same
    exact (List.length_eq_zero_iff.mp same.symm).symm
  | cons byte rest ih =>
    cases other with
    | nil => simp at same
    | cons byte' rest' =>
      have bound := byte.toNat_lt
      have bound' := byte'.toNat_lt
      simp only [littleEndian] at equal
      have head : byte.toNat = byte'.toNat := by omega
      rw [UInt8.toNat_inj.mp head, ih (by simpa using same) (by omega)]

theorem macOfBytes_injective {one other : Bytes} (six : one.length = 6) (six' : other.length = 6)
    (equal : macOfBytes one = macOfBytes other) : one = other := by
  apply littleEndian_injective (six.trans six'.symm)
  have values := congrArg UInt64.toNat equal
  rw [macOfBytes_toNat six, macOfBytes_toNat six'] at values
  omega

theorem length_macBytes (mac : Mac) : (macBytes mac).length = 6 := by
  simp [macBytes]

theorem macOfBytes_macBytes {mac : Mac} (key : mac.toNat % 65536 = 0) :
    macOfBytes (macBytes mac) = mac := by
  apply UInt64.toNat_inj.mp
  rw [macOfBytes_toNat (length_macBytes mac)]
  have bound := mac.toNat_lt
  simp only [macBytes, List.range, List.range.loop, List.map_cons, List.map_nil, littleEndian,
    UInt64.toNat_toUInt8, UInt64.toNat_shiftRight, UInt64.toNat_ofNat', Nat.reduceMul, Nat.reduceAdd,
    Nat.reduceMod, Nat.reducePow, Nat.shiftRight_eq_div_pow] at bound ⊢
  omega

theorem macBytes_macOfBytes {bytes : Bytes} (six : bytes.length = 6) :
    macBytes (macOfBytes bytes) = bytes := by
  apply macOfBytes_injective (length_macBytes _) six
  apply macOfBytes_macBytes
  rw [macOfBytes_toNat six]
  exact Nat.mul_mod_right _ _

theorem macOfBytes_eq_zero {bytes : Bytes} (six : bytes.length = 6) :
    macOfBytes bytes = 0 ↔ ∀ byte ∈ bytes, byte = 0 := by
  rw [← littleEndian_eq_zero, ← UInt64.toNat_inj, macOfBytes_toNat six, UInt64.toNat_zero]
  omega

theorem toUInt8_eq_zero {value : Int} : toUInt8 value = 0 ↔ value % 256 = 0 := by
  rw [← UInt8.toNat_inj]
  simp only [toUInt8, UInt8.toNat_ofNat', UInt8.toNat_zero, Nat.reducePow]
  omega

/-- The parts are stored when `stoi` reads every one of them. -/
theorem storeParts_eq_some {parts : List Bytes} {bytes : Bytes} :
    storeParts parts = some bytes ↔
      List.Forall₂ (fun part byte => ∃ value, stoi part 16 = some value ∧ toUInt8 value = byte)
        parts bytes := by
  induction parts generalizing bytes with
  | nil => rw [storeParts, Option.some.injEq, List.forall₂_nil_left_iff, eq_comm]
  | cons part rest ih =>
    simp only [storeParts, Option.bind_eq_bind, Option.bind_eq_some_iff, Option.some.injEq,
      List.forall₂_cons_left_iff, ih]
    constructor
    · rintro ⟨value, read, stored, tail, rfl⟩
      exact ⟨toUInt8 value, stored, ⟨value, read, rfl⟩, tail, rfl⟩
    · rintro ⟨byte, stored, ⟨value, read, rfl⟩, tail, rfl⟩
      exact ⟨value, read, stored, tail, rfl⟩

theorem macToUint64_eq_zero (macAddress : Bytes) :
    macToUint64 macAddress = some 0 ↔ (split macAddress 58).length ≠ 6 ∨
      ∀ part ∈ split macAddress 58, ∃ value, stoi part 16 = some value ∧ value % 256 = 0 := by
  by_cases six : (split macAddress 58).length = 6
  · simp only [macToUint64, six, not_true_eq_false, if_false, ne_eq, false_or,
      Option.map_eq_some_iff, storeParts_eq_some]
    constructor
    · rintro ⟨bytes, stored, zero⟩ part member
      rw [macOfBytes_eq_zero (stored.length_eq ▸ six)] at zero
      obtain ⟨index, below, rfl⟩ := List.mem_iff_getElem.mp member
      have below' : index < bytes.length := stored.length_eq ▸ below
      obtain ⟨value, read, byte⟩ := stored.get below below'
      exact ⟨value, read, toUInt8_eq_zero.mp (byte.trans (zero _ (List.getElem_mem below')))⟩
    · intro every
      refine ⟨List.replicate 6 0, ?_, by decide⟩
      apply List.forall₂_iff_get.mpr
      refine ⟨by rw [six, List.length_replicate], fun index below below' => ?_⟩
      obtain ⟨value, read, zero⟩ := every _ (List.get_mem _ ⟨index, below⟩)
      refine ⟨value, read, ?_⟩
      rw [toUInt8_eq_zero.mpr zero]
      exact (List.getElem_replicate below').symm
  · simp [macToUint64, six]

theorem SpellsByte.group {group : Bytes} {byte : UInt8} (spells : SpellsByte group byte) :
    group ≠ [] ∧ 58 ∉ group := by
  obtain ⟨length, plain, _⟩ := spells
  constructor
  · rintro rfl
    simp at length
  · intro member
    exact absurd (plain 58 member) (by decide)

theorem SpellsByte.stoi {group : Bytes} {byte : UInt8} (spells : SpellsByte group byte) :
    stoi group 16 = some (byte.toNat : Int) := by
  have bound := byte.toNat_lt
  rw [TalusVSwitch.stoi, strtol_digits (Nat.le_refl 16) spells.group.1 spells.2.1, spells.2.2]
  apply Option.filter_eq_some_iff.mpr
  refine ⟨rfl, ?_⟩
  simp only [Bool.and_eq_true, decide_eq_true_eq]
  omega

theorem toUInt8_toNat (byte : UInt8) : toUInt8 (byte.toNat : Int) = byte := by
  have bound := byte.toNat_lt
  apply UInt8.toNat_inj.mp
  simp only [toUInt8, UInt8.toNat_ofNat', Nat.reducePow]
  omega

theorem split_spells {macAddress bytes : Bytes} (nonempty : bytes ≠ [])
    (spells : Spells macAddress bytes) : List.Forall₂ SpellsByte (split macAddress 58) bytes := by
  obtain ⟨groups, rfl, spelled⟩ := spells
  have each : (∀ group ∈ groups, group ≠ [] ∧ 58 ∉ group) ∧ List.Forall₂ SpellsByte groups bytes :=
    (List.forall₂_and_left groups bytes).mp
      (spelled.imp fun _ _ spells => ⟨spells.group, spells⟩)
  have apart : Pieces.pieces 58 ([58].intercalate groups) = groups :=
    Pieces.pieces_intercalate each.1
  have written : [58].intercalate groups ≠ [] := by
    intro empty
    rw [empty, Pieces.pieces_nil] at apart
    subst apart
    exact nonempty (List.forall₂_nil_left_iff.mp spelled)
  rwa [split_of_ne_nil written, apart]

theorem macToUint64_spells {macAddress bytes : Bytes} (six : bytes.length = 6)
    (spells : Spells macAddress bytes) : macToUint64 macAddress = some (macOfBytes bytes) := by
  have nonempty : bytes ≠ [] := by
    rintro rfl
    simp at six
  have spelled := split_spells nonempty spells
  have stored : storeParts (split macAddress 58) = some bytes := by
    apply storeParts_eq_some.mpr
    exact spelled.imp fun group byte spells => ⟨_, spells.stoi, toUInt8_toNat byte⟩
  simp [macToUint64, spelled.length_eq, six, stored]

/-- `macToUint64` takes a text in the grammar for the MAC it spells and every other text
for zero exactly when the text is in the grammar, or has not six nonempty parts, or
`stoi` reads a multiple of 256 in each of them. -/
theorem accepts_grammar_iff (macAddress : Bytes) :
    ((∀ bytes : Bytes, bytes.length = 6 → Spells macAddress bytes →
        macToUint64 macAddress = some (macOfBytes bytes)) ∧
      (¬ IsMacText macAddress → macToUint64 macAddress = some 0)) ↔
    (IsMacText macAddress ∨ (split macAddress 58).length ≠ 6 ∨
      ∀ part ∈ split macAddress 58, ∃ value, stoi part 16 = some value ∧ value % 256 = 0) := by
  rw [← macToUint64_eq_zero]
  constructor
  · rintro ⟨_, otherwise⟩
    by_cases grammar : IsMacText macAddress
    · exact .inl grammar
    · exact .inr (otherwise grammar)
  · intro met
    exact ⟨fun bytes six spells => macToUint64_spells six spells,
      fun foreign => met.resolve_left foreign⟩

/-- `1:2:3:4:5:6g` is no MAC text, and is taken for `1:2:3:4:5:6`. -/
theorem trailing_letter_accepted :
    ¬ ((∀ bytes : Bytes, bytes.length = 6 → Spells (text "1:2:3:4:5:6g") bytes →
        macToUint64 (text "1:2:3:4:5:6g") = some (macOfBytes bytes)) ∧
      (¬ IsMacText (text "1:2:3:4:5:6g") → macToUint64 (text "1:2:3:4:5:6g") = some 0)) := by
  rintro ⟨_, otherwise⟩
  have foreign : ¬ IsMacText (text "1:2:3:4:5:6g") := by
    rintro ⟨bytes, six, spells⟩
    have nonempty : bytes ≠ [] := by
      rintro rfl
      simp at six
    have spelled := split_spells nonempty spells
    have plain : ∀ group ∈ split (text "1:2:3:4:5:6g") 58, ∀ char ∈ group, (digitOf 16 char).isSome :=
      ((List.forall₂_and_left _ _).mp (spelled.imp fun _ _ spells => ⟨spells.2.1, spells⟩)).1
    have last : text "6g" ∈ split (text "1:2:3:4:5:6g") 58 := by decide
    exact absurd (plain _ last 103 (by decide)) (by decide)
  exact absurd (otherwise foreign) (by decide)

theorem hexByte_spells (byte : UInt8) : SpellsByte (hexByte byte) byte := by
  have digit : ∀ value < 16, digitOf 16 ((text "0123456789abcdef").getD value 0) = some value := by
    decide
  have bound := byte.toNat_lt
  have high := digit (byte.toNat / 16) (by omega)
  have low := digit (byte.toNat % 16) (by omega)
  refine ⟨.inr rfl, ?_, ?_⟩
  · intro char member
    simp only [hexByte, List.mem_cons, List.not_mem_nil, or_false] at member
    rcases member with rfl | rfl
    · rw [high, Option.isSome_some]
    · rw [low, Option.isSome_some]
  · simp only [hexByte, digits, high, low, Numeral.value, List.foldl_cons, List.foldl_nil]
    omega

theorem uint64ToMacStr_spells (mac : Mac) : Spells (uint64ToMacStr mac) (macBytes mac) := by
  refine ⟨(macBytes mac).map hexByte, rfl, ?_⟩
  rw [List.forall₂_map_left_iff]
  exact List.forall₂_same.mpr fun byte _ => hexByte_spells byte

theorem uint64ToMacStr_notMem (mac : Mac) {code : UInt8} (sign : NoDigit code)
    (other : code ≠ 58) : code ∉ uint64ToMacStr mac := by
  apply Pieces.notMem_intercalate _ other
  intro part member
  obtain ⟨byte, _, rfl⟩ := List.mem_map.mp member
  intro inside
  exact digit_ne (Nat.le_refl 16) ((hexByte_spells byte).2.1 code inside) sign rfl

theorem uint64ToMacStr_ne_nil (mac : Mac) : uint64ToMacStr mac ≠ [] := by
  intro empty
  have spelled := split_spells (by rw [← List.length_pos_iff_ne_nil, length_macBytes]; decide)
    (uint64ToMacStr_spells mac)
  have groups := spelled.length_eq
  rw [empty, length_macBytes] at groups
  exact absurd groups (by decide)

/-- The text of a key reads back as the key. -/
theorem macToUint64_uint64ToMacStr {mac : Mac} (key : mac.toNat % 65536 = 0) :
    macToUint64 (uint64ToMacStr mac) = some mac := by
  rw [macToUint64_spells (length_macBytes mac) (uint64ToMacStr_spells mac),
    macOfBytes_macBytes key]

end TalusVSwitch
