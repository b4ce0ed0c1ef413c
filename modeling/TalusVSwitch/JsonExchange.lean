import TalusVSwitch.JsonRoundTrip
import TalusVSwitch.JsonPrune

namespace TalusVSwitch.Json

open Reader

namespace FastWriter

variable {printf : Printf} {strtod : Bytes → Option UInt64}

theorem digital_last {digits : Bytes} (digital : Digital digits) :
    ∃ front c, digits = front ++ [c] ∧ isDigit c = true := by
  refine ⟨digits.dropLast, digits.getLast digital.1, (List.dropLast_append_getLast _).symm, ?_⟩
  exact digital.2 _ (List.getLast_mem _)

theorem number_last {point : UInt8} {text : Bytes} (number : Number point text) :
    ∃ front c, text = front ++ [c] ∧ isDigit c = true := by
  obtain @⟨sign, whole, fraction, exponent, -, digital, pointed, scaled⟩ := number
  cases scaled with
  | @some mark _ digits behind =>
    obtain ⟨front, c, rfl, digit⟩ := digital_last behind
    exact ⟨sign ++ (whole ++ (fraction ++ 101 :: mark :: front)), c, by simp, digit⟩
  | none =>
    cases pointed with
    | some behind =>
      obtain ⟨front, c, rfl, digit⟩ := digital_last behind
      exact ⟨sign ++ (whole ++ point :: front), c, by simp, digit⟩
    | none =>
      obtain ⟨front, c, rfl, digit⟩ := digital_last digital
      exact ⟨sign ++ front, c, by simp, digit⟩

theorem closes_writeValue {node : Node} (portable : Portable printf strtod node) :
    ∃ front c, writeValue printf node = front ++ [c] ∧ (text " \r\n\t").contains c = false := by
  have digits {text' : Bytes} (last : ∃ front c, text' = front ++ [c] ∧ isDigit c = true) :
      ∃ front c, text' = front ++ [c] ∧ (text " \r\n\t").contains c = false := by
    obtain ⟨front, c, same, digit⟩ := last
    refine ⟨front, c, same, ?_⟩
    rw [Bool.eq_false_iff, ne_eq, List.contains_iff_mem]
    intro member
    have blanks : (text " \r\n\t").all (fun blank => !isDigit blank) = true := by decide
    have blank := List.all_eq_true.mp blanks c member
    rw [digit] at blank
    cases blank
  cases portable with
  | null => exact ⟨text "nul", 108, by rw [writeValue]; decide, by decide⟩
  | int value => exact digits (number_last (number_intToString 46 value))
  | uint value => exact digits (number_last (number_uintToString 46 value))
  | @real bits exchanged =>
    rw [writeValue]
    rcases exchanged with nan | exchanged
    · rw [realToString_nan nan]
      exact ⟨text "nul", 108, by decide, by decide⟩
    · exact digits (number_last (number_realToString exchanged).1)
  | string utf8 =>
    obtain ⟨inner, written, -⟩ := valueToQuotedStringN_inner utf8
    rw [writeValue, written]
    exact ⟨34 :: inner, 34, rfl, by decide⟩
  | boolean value =>
    cases value with
    | false => exact ⟨text "fals", 101, by rw [writeValue]; decide, by decide⟩
    | true => exact ⟨text "tru", 101, by rw [writeValue]; decide, by decide⟩
  | array => exact ⟨_, 93, by rw [writeValue]; rfl, by decide⟩
  | object => exact ⟨_, 125, by rw [writeValue]; rfl, by decide⟩

theorem trimFront_kept {chars rest : Bytes} {c : UInt8} (known : c ≠ 0xFF)
    (kept : chars.contains c = false) : trimFront chars (c :: rest) = some (c :: rest) := by
  rw [trimFront, if_neg known, kept]
  rfl

/-- `trim` takes the line end off, and nothing else. -/
theorem trim_write {node : Node} (portable : Portable printf strtod node) :
    trim (writeValue printf node ++ text "\n") = some (writeValue printf node) := by
  have plain := plain_writeValue printf node
  obtain ⟨c, later, starts, noSpace, -⟩ := opens_writeValue portable
  obtain ⟨front, last, ends, blank⟩ := closes_writeValue portable
  have other : c ≠ 0xFF ∧ last ≠ 0xFF := by
    constructor
    · rintro rfl
      exact plain (starts ▸ List.mem_cons_self)
    · rintro rfl
      exact plain (ends ▸ List.mem_append_right _ List.mem_cons_self)
  have first : (text " \r\n\t").contains c = false := by
    rw [Bool.eq_false_iff, ne_eq, List.contains_iff_mem]
    intro member
    have blanks : (text " \r\n\t").all (fun blank => (skipSpaces [blank]).isEmpty) = true := by
      decide
    have blank := List.all_eq_true.mp blanks c member
    rw [noSpace] at blank
    cases blank
  have backwards : trimFront (text " \r\n\t") (writeValue printf node ++ text "\n").reverse =
      some (writeValue printf node).reverse := by
    have lineEnd : text "\n" = [10] := by decide
    rw [lineEnd, ends, List.reverse_append, List.reverse_append, List.reverse_singleton,
      List.reverse_singleton]
    show trimFront (text " \r\n\t") (10 :: last :: front.reverse) = some (last :: front.reverse)
    rw [trimFront, if_neg (by decide), if_pos (by decide), trimFront_kept other.2 blank]
  rw [trim, backwards]
  simp only [Option.bind_eq_bind, Option.bind_some, List.reverse_reverse]
  rw [starts, trimFront_kept other.1 first]

theorem parse_writeValue {node : Node} (portable : Portable printf strtod node)
    (ordered : node.Ordered) (flat : node.levels ≤ stackLimit) {rest : Bytes} (fenced : Fenced rest) :
    parse strtod (writeValue printf node ++ rest) = .ok node.normalise := by
  rw [parse, readValue_writeValue portable ordered flat fenced]
  rfl

/-! ### What is read prints as what was written -/

theorem toInt_toInt64 {value : UInt64} (small : value.toNat < 2 ^ 63) :
    value.toInt64.toInt = value.toNat := by
  show value.toBitVec.toInt = _
  rw [BitVec.toInt_eq_toNat_of_lt]
  · rfl
  · show 2 * value.toNat < _
    omega

theorem toInt64_nonneg {value : UInt64} (small : value.toNat < 2 ^ 63) : ¬ value.toInt64 < 0 := by
  have same := toInt_toInt64 small
  have zero : (0 : Int64).toInt = 0 := rfl
  rw [Int64.lt_iff_toInt_lt]
  omega

theorem uintToString_wholeNumber (value : UInt64) :
    writeValue printf (wholeNumber value) = uintToString value := by
  rw [wholeNumber]
  split_ifs with small
  · have bound : value.toNat ≤ 0x7FFFFFFF := UInt64.le_iff_toNat_le.mp small
    have positive : ¬ value.toInt64 < 0 := toInt64_nonneg (by omega)
    have least : value.toInt64 ≠ Int64.minValue := by
      intro equal
      exact positive (equal ▸ by decide)
    rw [writeValue, intToString, if_neg least, if_neg positive, UInt64.toUInt64_toInt64]
  · rw [writeValue]

theorem intToString_signedNumber (value : Int64) :
    writeValue printf (signedNumber value) = intToString value := by
  rw [signedNumber]
  split_ifs with negative
  · rw [writeValue]
  · have least : value ≠ Int64.minValue := by
      rintro rfl
      exact negative (by decide)
    rw [uintToString_wholeNumber, intToString, if_neg least, if_neg negative]

theorem ofNat_lt {earlier later : Nat} (before : earlier < later) (bound : later < 2 ^ 32) :
    UInt32.ofNat earlier < UInt32.ofNat later := by
  rw [UInt32.lt_iff_toNat_lt, UInt32.toNat_ofNat', UInt32.toNat_ofNat']
  omega

theorem pairwise_indices (child : Nat → Node) {count : Nat} (bound : count ≤ 2 ^ 32) :
    ((List.range count).map (fun index => (UInt32.ofNat index, child index))).Pairwise
      (fun item later => item.1 < later.1) := by
  rw [List.pairwise_map]
  refine List.pairwise_lt_range.imp_of_mem (fun _ member before => ?_)
  exact ofNat_lt before (Nat.lt_of_lt_of_le (List.mem_range.mp member) bound)

theorem size_indices (child : Nat → Node) (size : ArrayIndex) :
    (Node.arrayValue ((List.range size.toNat).map (fun index =>
      (UInt32.ofNat index, child index)))).size = size := by
  rw [Node.size, List.getLast?_map]
  cases count : size.toNat with
  | zero =>
    have none : size = 0 := UInt32.toNat_inj.mp count
    rw [none]
    rfl
  | succ last =>
    have bound := size.toNat_lt
    rw [List.range_succ, List.getLast?_append, List.getLast?_singleton]
    apply UInt32.toNat_inj.mp
    show (UInt32.ofNat last + 1).toNat = size.toNat
    rw [UInt32.toNat_add, UInt32.toNat_ofNat']
    show (last % 2 ^ 32 + 1) % 2 ^ 32 = _
    omega

theorem element_indices (child : Nat → Node) {count : Nat} (bound : count ≤ 2 ^ 32) {index : Nat}
    (below : index < count) :
    element ((List.range count).map (fun index => (UInt32.ofNat index, child index))) index =
      child index := by
  have found : ((List.range count).map (fun index => (UInt32.ofNat index, child index))).lookup
      (UInt32.ofNat index) = some (child index) := by
    rw [Sweep.lookup_eq_some_iff_mem
      ((pairwise_indices child bound).imp (fun before => UInt32.ne_of_lt before))]
    exact List.mem_map.mpr ⟨index, List.mem_range.mpr below, rfl⟩
  rw [element, found]
  rfl

/-- What is read prints as what was written. -/
theorem writeValue_normalise (node : Node) :
    writeValue printf node.normalise = writeValue printf node := by
  induction node using Node.induction with
  | leaf node noArray noObject =>
    cases node with
    | intValue value => rw [Node.normalise, intToString_signedNumber, writeValue]
    | uintValue value => rw [Node.normalise, uintToString_wholeNumber, writeValue]
    | realValue bits =>
      rw [Node.normalise]
      split_ifs with nan
      · rw [writeValue, writeValue, realToString_nan nan]
      · rfl
    | arrayValue => cases noArray
    | objectValue => cases noObject
    | nullValue | stringValue | booleanValue => rfl
  | array items ih =>
    have bound : (Node.arrayValue items).size.toNat ≤ 2 ^ 32 :=
      Nat.le_of_lt (Node.arrayValue items).size.toNat_lt
    rw [normalise_array, writeValue, elements_eq, size_indices, writeValue, elements_eq]
    congr 3
    apply List.map_congr_left
    intro index member
    rw [element_indices _ bound (List.mem_range.mp member)]
    rcases element_cases items index with null | ⟨item, present, same⟩
    · rw [null, Node.normalise_nullValue]
    · rw [same, ih item present]
  | object members ih =>
    rw [Node.normalise, Node.normaliseMembers_eq, writeValue, writeMembers_eq, writeValue,
      writeMembers_eq, List.map_map]
    congr 3
    apply List.map_congr_left
    intro member present
    simp only [Function.comp, ih member present]

theorem ordered_normalise {node : Node} (ordered : node.Ordered) : node.normalise.Ordered := by
  induction node using Node.induction with
  | leaf node noArray noObject =>
    cases node with
    | intValue value =>
      rw [Node.normalise, signedNumber, wholeNumber]
      split_ifs <;> exact .leaf rfl rfl
    | uintValue value =>
      rw [Node.normalise, wholeNumber]
      split_ifs <;> exact .leaf rfl rfl
    | realValue bits =>
      rw [Node.normalise]
      split_ifs <;> exact .leaf rfl rfl
    | arrayValue => cases noArray
    | objectValue => cases noObject
    | nullValue | stringValue | booleanValue => exact .leaf rfl rfl
  | array items ih =>
    rw [normalise_array]
    refine .array (pairwise_indices _ (Nat.le_of_lt (Node.arrayValue items).size.toNat_lt)) ?_
    intro item member
    obtain ⟨index, -, rfl⟩ := List.mem_map.mp member
    rcases element_cases items index with null | ⟨present, there, same⟩
    · dsimp only
      rw [null]
      exact .leaf rfl rfl
    · dsimp only
      rw [same]
      exact ih present there (ordered.item there)
  | object members ih =>
    rw [Node.normalise, Node.normaliseMembers_eq]
    refine .object (List.pairwise_map.mpr ordered.names) ?_
    intro member there
    obtain ⟨before, present, rfl⟩ := List.mem_map.mp there
    exact ih before present (ordered.member present)

end FastWriter

/-! ### Pruning first -/

section Pruned

variable {printf : Printf} {strtod : Bytes → Option UInt64}

theorem Node.levelsItems_le {items : Items} {most : Nat}
    (all : ∀ item ∈ items, item.2.levels ≤ most) : Node.levelsItems items ≤ most := by
  induction items with
  | nil => exact Nat.zero_le _
  | cons item rest ih =>
    exact Nat.max_le.mpr ⟨all item List.mem_cons_self,
      ih (fun later member => all later (List.mem_cons_of_mem _ member))⟩

theorem Node.levelsMembers_le {members : Members} {most : Nat}
    (all : ∀ member ∈ members, member.2.levels ≤ most) : Node.levelsMembers members ≤ most := by
  induction members with
  | nil => exact Nat.zero_le _
  | cons member rest ih =>
    exact Nat.max_le.mpr ⟨all member List.mem_cons_self,
      ih (fun later present => all later (List.mem_cons_of_mem _ present))⟩

/-- Pruning leaves what can be exchanged. -/
theorem Portable.removeNullMember {node : Node} (portable : Portable printf strtod node)
    (ordered : node.Ordered) :
    Portable printf strtod (Json.removeNullMember node) ∧
      (Json.removeNullMember node).levels ≤ node.levels := by
  induction node using Node.induction with
  | leaf node noArray noObject =>
    rw [removeNullMember_leaf noArray noObject]
    exact ⟨portable, Nat.le_refl _⟩
  | array items ih =>
    cases portable with
    | array counted below =>
      have each : ∀ item ∈ items, Portable printf strtod (Json.removeNullMember item.2) ∧
          (Json.removeNullMember item.2).levels ≤ item.2.levels :=
        fun item member => ih item member (below item member) (ordered.item member)
      rw [removeNullMember_array ordered]
      constructor
      · refine .array ?_ ?_
        · have same : (Node.arrayValue (items.map (fun item =>
              (item.1, Json.removeNullMember item.2)))).size = (Node.arrayValue items).size := by
            rw [Node.size, Node.size, List.getLast?_map]
            cases items.getLast? <;> rfl
          rwa [same]
        · intro pruned member
          obtain ⟨item, present, rfl⟩ := List.mem_map.mp member
          exact (each item present).1
      · rw [Node.levels, Node.levels]
        refine Nat.succ_le_succ (Node.levelsItems_le (fun pruned member => ?_))
        obtain ⟨item, present, rfl⟩ := List.mem_map.mp member
        exact (each item present).2.trans (Node.levels_item present)
  | object members ih =>
    cases portable with
    | object names below =>
      have each : ∀ pruned ∈ Sweep.result (memberAction Json.removeNullMember) members,
          ∃ member ∈ members, pruned.1 = member.1 ∧ Portable printf strtod pruned.2 ∧
            pruned.2.levels ≤ member.2.levels := by
        intro pruned member
        obtain ⟨before, present, -, rfl⟩ := Sweep.mem_result.mp member
        have smaller := ih before present (below before present) (ordered.member present)
        rw [settle_member]
        split
        · exact ⟨before, present, rfl, below before present, Nat.le_refl _⟩
        · exact ⟨before, present, rfl, smaller⟩
      rw [removeNullMember_object ordered]
      constructor
      · refine .object (fun pruned member => ?_) (fun pruned member => ?_)
        · obtain ⟨before, present, same, -, -⟩ := each pruned member
          rw [same]
          exact names before present
        · obtain ⟨before, present, -, kept, -⟩ := each pruned member
          exact kept
      · rw [Node.levels, Node.levels]
        refine Nat.succ_le_succ (Node.levelsMembers_le (fun pruned member => ?_))
        obtain ⟨before, present, -, -, less⟩ := each pruned member
        exact less.trans (Node.levels_member present)

end Pruned

/-- The copy `writeJson` prints. -/
def Value.shown (value : Value) (skipNull : Bool) : Value :=
  if skipNull then value.removeNullMember else value

/-- What is read for a value. -/
def Value.normalise (value : Value) : Value :=
  ⟨value.node.normalise, FastWriter.ordered_normalise value.ordered⟩

theorem writeJson_shown (printf : Printf) (value : Value) (skipNull : Bool) :
    writeJson printf value skipNull = trim (FastWriter.write printf (value.shown skipNull)) := by
  cases skipNull <;> rfl

theorem writeJson_text {printf : Printf} {strtod : Bytes → Option UInt64} {value : Value}
    (portable : Portable printf strtod value.node) (flat : value.node.levels ≤ stackLimit)
    (skipNull : Bool) :
    writeJson printf value skipNull =
        some (FastWriter.writeValue printf (value.shown skipNull).node) ∧
      parse strtod (FastWriter.writeValue printf (value.shown skipNull).node) =
        .ok (value.shown skipNull).normalise.node := by
  have kept : Portable printf strtod (value.shown skipNull).node ∧
      (value.shown skipNull).node.levels ≤ stackLimit := by
    cases skipNull with
    | false => exact ⟨portable, flat⟩
    | true =>
      have pruned := portable.removeNullMember value.ordered
      exact ⟨pruned.1, pruned.2.trans flat⟩
  have read := FastWriter.parse_writeValue kept.1 (value.shown skipNull).ordered kept.2 fenced_nil
  rw [List.append_nil] at read
  refine ⟨?_, read⟩
  rw [writeJson_shown]
  exact FastWriter.trim_write kept.1

/-- What `writeJson` prints, `parseJson` reads, up to the kinds of the numbers and the gaps
of the arrays; and it prints that as the same text again. -/
theorem writeJson_reads_back {printf : Printf} {strtod : Bytes → Option UInt64} {value : Value}
    (portable : Portable printf strtod value.node) (flat : value.node.levels ≤ stackLimit)
    (skipNull : Bool) :
    ∃ text, writeJson printf value skipNull = some text ∧
      parse strtod text = .ok (value.shown skipNull).normalise.node ∧
      writeJson printf (value.shown skipNull).normalise false = some text := by
  obtain ⟨written, read⟩ := writeJson_text portable flat skipNull
  refine ⟨_, written, read, ?_⟩
  rw [← written, writeJson_shown, writeJson_shown]
  show trim (FastWriter.writeValue printf (value.shown skipNull).node.normalise ++ text "\n") = _
  rw [FastWriter.writeValue_normalise]
  rfl

/-- The libraries, for the `double` one and a half. -/
def printHalf : Printf where
  print bits := if bits = 0x3FF8000000000000 then text "1.5" else text "0"
  plain bits := by split_ifs <;> decide

def readHalf (token : Bytes) : Option UInt64 :=
  if token = text "1.5" then some 0x3FF8000000000000 else none

/-- An object with a gap in an array, a line of UTF-8, and nothing under one name. -/
def gapped : Value where
  node := .objectValue
    [(text "list", .arrayValue [(0, .intValue (-3)), (2, .realValue 0x3FF8000000000000)]),
      (text "name", .stringValue [195, 169, 10]), (text "none", .nullValue)]
  ordered := by
    refine .object (by decide) ?_
    intro member present
    simp only [List.mem_cons, List.not_mem_nil, or_false] at present
    rcases present with rfl | rfl | rfl
    · refine .array (by decide) ?_
      intro item there
      simp only [List.mem_cons, List.not_mem_nil, or_false] at there
      rcases there with rfl | rfl <;> exact .leaf rfl rfl
    · exact .leaf rfl rfl
    · exact .leaf rfl rfl

theorem exchanged_half : Exchanged printHalf readHalf 0x3FF8000000000000 where
  finite := by decide
  printed := by
    have one : Digital [49] := ⟨List.cons_ne_nil _ _, List.all_eq_true.mp (by decide)⟩
    have five : Digital [53] := ⟨List.cons_ne_nil _ _, List.all_eq_true.mp (by decide)⟩
    exact ⟨46, .inl rfl, .intro .none one (.some five) .none⟩
  extracted := by decide

theorem portable_gapped : Portable printHalf readHalf gapped.node := by
  refine .object ?_ ?_
  · intro member present
    simp only [List.mem_cons, List.not_mem_nil, or_false] at present
    rcases present with rfl | rfl | rfl <;> exact utf8_ascii (by decide)
  · intro member present
    simp only [List.mem_cons, List.not_mem_nil, or_false] at present
    rcases present with rfl | rfl | rfl
    · refine .array (by decide) ?_
      intro item there
      simp only [List.mem_cons, List.not_mem_nil, or_false] at there
      rcases there with rfl | rfl
      · exact .int _
      · exact .real (.inr exchanged_half)
    · have scalars : Scalar 233 ∧ Scalar 10 := ⟨.inl (by decide), .inl (by decide)⟩
      exact .string (.cons scalars.1 (.cons scalars.2 .nil))
    · exact .null

theorem writeJson_reads_back_gapped :
    ∃ text, writeJson printHalf gapped true = some text ∧
      parse readHalf text = .ok (gapped.shown true).normalise.node ∧
      writeJson printHalf (gapped.shown true).normalise false = some text :=
  writeJson_reads_back portable_gapped (by decide) true

end TalusVSwitch.Json
