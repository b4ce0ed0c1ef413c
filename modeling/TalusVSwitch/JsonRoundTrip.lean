import TalusVSwitch.JsonNumbers
import TalusVSwitch.JsonStrings

/-! What `parseJson` reads in the text `writeJson` makes of a value. -/

namespace TalusVSwitch.Json

open Reader

namespace Node

mutual

/-- The calls of `readValue` that the text of a node takes, one inside the other. -/
def levels : Node → Nat
  | .arrayValue items => levelsItems items + 1
  | .objectValue members => levelsMembers members + 1
  | _ => 1

def levelsItems : Items → Nat
  | [] => 0
  | (_, child) :: rest => max child.levels (levelsItems rest)

def levelsMembers : Members → Nat
  | [] => 0
  | (_, child) :: rest => max child.levels (levelsMembers rest)

end

theorem levels_pos (node : Node) : 0 < node.levels := by
  cases node <;> simp [levels]

theorem levels_item {items : Items} {item : ArrayIndex × Node} (member : item ∈ items) :
    item.2.levels ≤ levelsItems items := by
  induction items with
  | nil => cases member
  | cons first rest ih =>
    rcases List.mem_cons.mp member with rfl | later
    · exact Nat.le_max_left _ _
    · exact Nat.le_trans (ih later) (Nat.le_max_right _ _)

theorem levels_member {members : Members} {member : Bytes × Node} (present : member ∈ members) :
    member.2.levels ≤ levelsMembers members := by
  induction members with
  | nil => cases present
  | cons first rest ih =>
    rcases List.mem_cons.mp present with rfl | later
    · exact Nat.le_max_left _ _
    · exact Nat.le_trans (ih later) (Nat.le_max_right _ _)

mutual

/-- What is read for a node: numbers by their size, `null` for what is not a number, and for
every index of an array that has no element. -/
def normalise : Node → Node
  | .intValue value => signedNumber value
  | .uintValue value => wholeNumber value
  | .realValue bits => if isnan bits then .nullValue else .realValue bits
  | .arrayValue items =>
    .arrayValue ((List.range (Node.arrayValue items).size.toNat).map (fun index =>
      (UInt32.ofNat index,
        ((normaliseItems items).lookup (UInt32.ofNat index)).getD .nullValue)))
  | .objectValue members => .objectValue (normaliseMembers members)
  | node => node

def normaliseItems : Items → Items
  | [] => []
  | (index, child) :: rest => (index, child.normalise) :: normaliseItems rest

def normaliseMembers : Members → Members
  | [] => []
  | (name, child) :: rest => (name, child.normalise) :: normaliseMembers rest

end

@[simp] theorem normalise_nullValue : Node.nullValue.normalise = .nullValue := rfl

@[simp] theorem normalise_stringValue (value : Bytes) :
    (Node.stringValue value).normalise = .stringValue value := rfl

@[simp] theorem normalise_booleanValue (value : Bool) :
    (Node.booleanValue value).normalise = .booleanValue value := rfl

theorem normaliseItems_eq (items : Items) :
    normaliseItems items = items.map (fun item => (item.1, item.2.normalise)) := by
  induction items with
  | nil => rfl
  | cons item rest ih => rw [normaliseItems, ih, List.map_cons]

theorem normaliseMembers_eq (members : Members) :
    normaliseMembers members = members.map (fun member => (member.1, member.2.normalise)) := by
  induction members with
  | nil => rfl
  | cons member rest ih => rw [normaliseMembers, ih, List.map_cons]

end Node

/-- What the two ends of a text agree on: strings and names of UTF-8, finite doubles that
the libraries exchange, and arrays an `int` can count. -/
inductive Portable (printf : Printf) (strtod : Bytes → Option UInt64) : Node → Prop
  | null : Portable printf strtod .nullValue
  | int (value : Int64) : Portable printf strtod (.intValue value)
  | uint (value : UInt64) : Portable printf strtod (.uintValue value)
  | real {bits : UInt64} (exchanged : isnan bits = true ∨ Exchanged printf strtod bits) :
    Portable printf strtod (.realValue bits)
  | string {value : Bytes} (utf8 : Utf8 value) : Portable printf strtod (.stringValue value)
  | boolean (value : Bool) : Portable printf strtod (.booleanValue value)
  | array {items : Items} (counted : (Node.arrayValue items).size.toNat < 2 ^ 31)
    (below : ∀ item ∈ items, Portable printf strtod item.2) :
    Portable printf strtod (.arrayValue items)
  | object {members : Members} (names : ∀ member ∈ members, Utf8 member.1)
    (below : ∀ member ∈ members, Portable printf strtod member.2) :
    Portable printf strtod (.objectValue members)

namespace Reader

theorem skipCommentTokens_of {bytes rest : Bytes} {token : Token}
    (read : readToken bytes = (token, rest)) (other : token ≠ .tokenComment) :
    skipCommentTokens bytes = (token, rest) := by
  rw [skipCommentTokens.eq_def]
  split
  · rename_i comment
    rw [read] at comment
    cases comment
    exact absurd rfl other
  · exact read

theorem readToken_symbol {c : UInt8} {token : Token} (symbol : symbols.lookup c = some token)
    (rest : Bytes) : readToken (c :: rest) = (token, rest) := by
  have noSpace : ∀ known ∈ symbols, (known.1 == 32 || known.1 == 9 || known.1 == 13 ||
      known.1 == 10) = false := by decide
  have start : skipSpaces (c :: rest) = c :: rest := by
    rw [skipSpaces, List.dropWhile_cons, noSpace _ (Sweep.mem_of_lookup symbol)]
    rfl
  simp only [readToken, start, symbol]

/-- How the text of a value begins. -/
def Opens (bytes : Bytes) : Prop :=
  ∃ c later, bytes = c :: later ∧ skipSpaces [c] = [c] ∧ c ≠ 93

theorem Opens.skipSpaces {bytes : Bytes} (opens : Opens bytes) (rest : Bytes) :
    Reader.skipSpaces (bytes ++ rest) = bytes ++ rest := by
  obtain ⟨c, later, rfl, noSpace, -⟩ := opens
  rw [List.cons_append, Reader.skipSpaces, List.dropWhile_cons]
  rw [Reader.skipSpaces, List.dropWhile_cons] at noSpace
  split_ifs at noSpace ⊢
  · cases noSpace
  · rfl

theorem Opens.of_number {point : UInt8} {text : Bytes} (number : Number point text) :
    Opens text := by
  obtain @⟨sign, whole, fraction, exponent, signed, digital, -, -⟩ := number
  cases signed with
  | minus => exact ⟨45, _, rfl, rfl, by decide⟩
  | none =>
    obtain ⟨first, later, rfl⟩ := List.exists_cons_of_ne_nil digital.1
    have code := isDigit_iff.mp (digital.2 first List.mem_cons_self)
    refine ⟨first, _, rfl, ?_, ?_⟩
    · have blank : (first == 32 || first == 9 || first == 13 || first == 10) = false := by
        simp only [Bool.or_eq_false_iff, beq_eq_false_iff_ne]
        refine ⟨⟨⟨?_, ?_⟩, ?_⟩, ?_⟩ <;> rintro rfl <;> exact absurd code (by decide)
      rw [Reader.skipSpaces, List.dropWhile_cons, blank]
      rfl
    · rintro rfl
      exact absurd code (by decide)

end Reader

namespace FastWriter

variable {printf : Printf} {strtod : Bytes → Option UInt64}

theorem realToString_nan {bits : UInt64} (nan : isnan bits = true) :
    realToString printf bits = text "null" := by
  have infinite : isfinite bits = false := by
    rw [isnan, Bool.and_eq_true, Bool.not_eq_true'] at nan
    exact nan.1
  rw [realToString, infinite, nan]
  rfl

theorem opens_writeValue {node : Node} (portable : Portable printf strtod node) :
    Opens (writeValue printf node) := by
  cases portable with
  | null => exact ⟨110, _, rfl, rfl, by decide⟩
  | int value => exact Opens.of_number (number_intToString 46 value)
  | uint value => exact Opens.of_number (number_uintToString 46 value)
  | @real bits exchanged =>
    rw [writeValue]
    rcases exchanged with nan | exchanged
    · rw [realToString_nan nan]
      exact ⟨110, _, rfl, rfl, by decide⟩
    · exact Opens.of_number (number_realToString exchanged).1
  | string utf8 =>
    obtain ⟨inner, written, -⟩ := valueToQuotedStringN_inner utf8
    rw [writeValue, written]
    exact ⟨34, _, rfl, rfl, by decide⟩
  | boolean value =>
    cases value with
    | false => exact ⟨102, _, rfl, rfl, by decide⟩
    | true => exact ⟨116, _, rfl, rfl, by decide⟩
  | array => exact ⟨91, _, rfl, rfl, by decide⟩
  | object => exact ⟨123, _, rfl, rfl, by decide⟩

end FastWriter

namespace Reader

variable {read : Bytes → Except Failure (Node × Bytes)}

theorem fenced_symbol {c : UInt8} (symbol : c = 44 ∨ c = 93 ∨ c = 125) (rest : Bytes) :
    Fenced (c :: rest) := by
  intro first same
  cases same
  rcases symbol with rfl | rfl | rfl <;> decide

/-- The loop of `readArray`, over the texts of elements that are read one by one. -/
theorem readItems_written {written : Nat → Bytes} {value : Nat → Node} {index count : Nat}
    (reads : ∀ element, index ≤ element → element < index + count → ∀ rest, Fenced rest →
      read (written element ++ rest) = .ok (value element, rest))
    (some : 0 < count) (counted : index + count ≤ 2 ^ 31) {fuel : Nat} (enough : count ≤ fuel)
    (items : Items) (rest : Bytes) :
    readItems read fuel index items
        ((text ",").intercalate ((List.range' index count).map written) ++ 93 :: rest) =
      .ok (items ++ (List.range' index count).map (fun element =>
        (UInt32.ofNat element, value element)), rest) := by
  induction count generalizing index fuel items with
  | zero => cases some
  | succ count ih =>
    obtain ⟨fuel, rfl⟩ := Nat.exists_eq_succ_of_ne_zero (Nat.ne_of_gt (Nat.lt_of_lt_of_le some enough))
    have first := reads index (Nat.le_refl _) (by omega)
    have within : ¬ 2 ^ 31 ≤ index := by omega
    rw [List.range'_succ, List.map_cons, List.map_cons]
    cases count with
    | zero =>
      have close : skipCommentTokens (93 :: rest) = (.tokenArrayEnd, rest) :=
        skipCommentTokens_of (readToken_symbol rfl rest) Token.noConfusion
      rw [List.range'_zero, List.map_nil, List.map_nil, List.intercalate_singleton, readItems,
        if_neg within, first _ (fenced_symbol (.inr (.inl rfl)) rest)]
      simp only [bind, Except.bind, close]
    | succ count =>
      have comma : text "," = [44] := by decide
      have next (rest : Bytes) : skipCommentTokens (44 :: rest) = (.tokenArraySeparator, rest) :=
        skipCommentTokens_of (readToken_symbol rfl rest) Token.noConfusion
      have further : (List.range' (index + 1) (count + 1)).map written ≠ [] := by simp
      have later := @ih (index + 1) (fun element least most => reads element (by omega) (by omega))
        (Nat.succ_pos count) (by omega) fuel (by omega) (items ++ [(UInt32.ofNat index, value index)])
      rw [List.intercalate_cons_of_ne_nil further, comma, List.append_assoc, List.append_assoc,
        List.singleton_append, readItems, if_neg within, first _ (fenced_symbol (.inl rfl) _)]
      simp only [bind, Except.bind, next]
      rw [← comma, later, List.append_assoc, List.singleton_append]

theorem assign_last {front : Members} {name : Bytes} (before : ∀ member ∈ front, member.1 < name)
    (child : Node) :
    assign (resolveReference front name).2 name child = front ++ [(name, child)] := by
  have absent : front.lookup name = none := by
    rw [List.lookup_eq_none_iff]
    intro member present
    have less := before member present
    rw [bne_iff_ne]
    rintro rfl
    exact List.lt_irrefl _ less
  have kept : front.takeWhile (fun member => member.1 < name) = front := by
    rw [List.takeWhile_eq_self_iff]
    intro member present
    exact decide_eq_true (before member present)
  have none : front.dropWhile (fun member => member.1 < name) = [] := by
    rw [List.dropWhile_eq_nil_iff]
    intro member present
    exact decide_eq_true (before member present)
  simp only [resolveReference, absent, kept, none]
  rw [assign, List.map_append, List.map_singleton, beq_self_eq_true, if_pos rfl]
  congr 1
  refine (List.map_congr_left (fun member present => ?_)).trans (List.map_id front)
  have less := before member present
  have other : member.1 ≠ name := by
    rintro rfl
    exact List.lt_irrefl _ less
  rw [beq_eq_false_iff_ne.mpr other]
  rfl

/-- The text of a member. -/
def memberText (printf : Printf) (member : Bytes × Node) : Bytes :=
  valueToQuotedStringN member.1 ++ text ":" ++ FastWriter.writeValue printf member.2

/-- The loop of `readObject`, over the texts of members that are read one by one. -/
theorem readMembers_written {printf : Printf} {value : Node → Node} {members : Members}
    (reads : ∀ member ∈ members, ∀ rest, Fenced rest →
      read (FastWriter.writeValue printf member.2 ++ rest) = .ok (value member.2, rest))
    (utf8 : ∀ member ∈ members, Utf8 member.1)
    (names : members.Pairwise (fun member later => member.1 < later.1)) (some : members ≠ [])
    {fuel : Nat} (enough : members.length ≤ fuel) (unnamed : Bool) {front : Members}
    (before : ∀ earlier ∈ front, ∀ member ∈ members, earlier.1 < member.1) (rest : Bytes) :
    readMembers read fuel unnamed front
        ((text ",").intercalate (members.map (memberText printf)) ++ 125 :: rest) =
      .ok (front ++ members.map (fun member => (member.1, value member.2)), rest) := by
  induction members generalizing fuel unnamed front with
  | nil => exact absurd rfl some
  | cons member later ih =>
    obtain ⟨fuel, rfl⟩ : ∃ less, fuel = less + 1 :=
      Nat.exists_eq_succ_of_ne_zero (Nat.ne_of_gt (Nat.lt_of_lt_of_le (Nat.succ_pos _) enough))
    have first := reads member List.mem_cons_self
    have colon : text ":" = [58] := by decide
    have placed := assign_last (fun earlier present => before earlier present member List.mem_cons_self)
      (value member.2)
    have spelled (rest : Bytes) : ∃ inner, skipCommentTokens (memberText printf member ++ rest) =
        (.tokenString inner,
          58 :: (FastWriter.writeValue printf member.2 ++ rest)) ∧
        decodeString inner = .some member.1 := by
      obtain ⟨inner, token, decoded⟩ := readToken_quoted (utf8 member List.mem_cons_self)
        (58 :: (FastWriter.writeValue printf member.2 ++ rest))
      refine ⟨inner, skipCommentTokens_of ?_ Token.noConfusion, decoded⟩
      rw [memberText, colon, List.append_assoc, List.append_assoc]
      exact token
    have separator (rest : Bytes) : readToken (58 :: rest) = (.tokenMemberSeparator, rest) :=
      readToken_symbol rfl rest
    rw [List.map_cons, List.map_cons]
    cases later with
    | nil =>
      have close : readToken (125 :: rest) = (.tokenObjectEnd, rest) := readToken_symbol rfl rest
      obtain ⟨inner, token, decoded⟩ := spelled (125 :: rest)
      rw [List.map_nil, List.map_nil, List.intercalate_singleton, readMembers, token]
      simp only [decoded, separator, first _ (fenced_symbol (.inr (.inr rfl)) rest), bind,
        Except.bind, placed, close]
    | cons next more =>
      have comma : text "," = [44] := by decide
      have follows (rest : Bytes) : readToken (44 :: rest) = (.tokenArraySeparator, rest) :=
        readToken_symbol rfl rest
      have further : (next :: more).map (memberText printf) ≠ [] := by simp
      have still : ∀ earlier ∈ front ++ [(member.1, value member.2)], ∀ behind ∈ next :: more,
          earlier.1 < behind.1 := by
        intro earlier present behind there
        rcases List.mem_append.mp present with old | new
        · exact before earlier old behind (List.mem_cons_of_mem _ there)
        · cases List.mem_singleton.mp new
          exact List.rel_of_pairwise_cons names there
      have remaining := ih (fun other present => reads other (List.mem_cons_of_mem _ present))
        (fun other present => utf8 other (List.mem_cons_of_mem _ present)) names.of_cons
        (List.cons_ne_nil _ _) (Nat.le_of_succ_le_succ enough) member.1.isEmpty still
      obtain ⟨inner, token, decoded⟩ := spelled
        (44 :: ((text ",").intercalate ((next :: more).map (memberText printf)) ++ 125 :: rest))
      rw [List.intercalate_cons_of_ne_nil further, List.append_assoc, List.append_assoc]
      nth_rewrite 1 [comma]
      rw [List.singleton_append, readMembers, token]
      simp only [decoded, separator, first _ (fenced_symbol (.inl rfl) _), bind, Except.bind,
        placed, follows, remaining, List.append_assoc, List.singleton_append]

end Reader

namespace FastWriter

variable {printf : Printf} {strtod : Bytes → Option UInt64}

/-- The node at an index, with `null` where an array has no element. -/
def element (items : Items) (index : Nat) : Node :=
  (items.lookup (UInt32.ofNat index)).getD .nullValue

theorem element_cases (items : Items) (index : Nat) :
    element items index = .nullValue ∨ ∃ item ∈ items, element items index = item.2 := by
  rw [element]
  cases found : items.lookup (UInt32.ofNat index) with
  | none => exact .inl rfl
  | some child => exact .inr ⟨_, Sweep.mem_of_lookup found, rfl⟩

theorem elements_eq (items : Items) (size : ArrayIndex) :
    elements size (writeItems printf items) =
      (List.range size.toNat).map (fun index => writeValue printf (element items index)) := by
  rw [elements, writeItems_eq]
  apply List.map_congr_left
  intro index _
  rw [Sweep.lookup_map, element]
  cases items.lookup (UInt32.ofNat index) <;> rfl

theorem normalise_array (items : Items) :
    (Node.arrayValue items).normalise =
      .arrayValue ((List.range (Node.arrayValue items).size.toNat).map (fun index =>
        (UInt32.ofNat index, (element items index).normalise))) := by
  rw [Node.normalise, Node.normaliseItems_eq]
  congr 1
  apply List.map_congr_left
  intro index _
  rw [Sweep.lookup_map, element]
  cases items.lookup (UInt32.ofNat index) with
  | none => rfl
  | some child => rfl

theorem length_le_intercalate (separator : Bytes) {parts : List Bytes}
    (nonempty : ∀ part ∈ parts, part ≠ []) : parts.length ≤ (separator.intercalate parts).length := by
  induction parts with
  | nil => exact Nat.zero_le _
  | cons part rest ih =>
    have first := List.length_pos_iff.mpr (nonempty part List.mem_cons_self)
    have later := ih (fun part member => nonempty part (List.mem_cons_of_mem _ member))
    cases rest with
    | nil => rwa [List.intercalate_singleton]
    | cons next more =>
      rw [List.intercalate_cons_cons, List.length_append, List.length_append]
      simp only [List.length_cons] at later ⊢
      omega

theorem readValue_number {stack : Nat} {token rest : Bytes} {node : Node}
    (number : Number 46 token) (fenced : Fenced rest)
    (decoded : decodeNumber strtod token = some node) :
    readValue strtod (stack + 1) (token ++ rest) = .ok (node, rest) := by
  have first := skipCommentTokens_of (readToken_number number fenced) Token.noConfusion
  rw [readValue, first]
  simp only [decoded]

theorem readValue_leaf {node : Node} (portable : Portable printf strtod node)
    (noArray : node.isArray = false) (noObject : node.isObject = false) {stack : Nat} {rest : Bytes}
    (fenced : Fenced rest) :
    readValue strtod (stack + 1) (writeValue printf node ++ rest) = .ok (node.normalise, rest) := by
  have null : readValue strtod (stack + 1) (text "null" ++ rest) = .ok (.nullValue, rest) := by
    have first : skipCommentTokens (text "null" ++ rest) = (.tokenNull, rest) :=
      skipCommentTokens_of rfl Token.noConfusion
    rw [readValue, first]
  cases portable with
  | null => exact null
  | int value =>
    rw [Node.normalise]
    exact readValue_number (number_intToString 46 value) fenced (decodeNumber_intToString value)
  | uint value =>
    rw [Node.normalise]
    exact readValue_number (number_uintToString 46 value) fenced (decodeNumber_uintToString value)
  | @real bits exchanged =>
    rw [Node.normalise, writeValue]
    rcases exchanged with nan | exchanged
    · rw [realToString_nan nan, nan]
      exact null
    · have number : isnan bits = false := by rw [isnan, exchanged.finite]; rfl
      rw [number]
      exact readValue_number (number_realToString exchanged).1 fenced
        (decodeNumber_realToString exchanged)
  | @string value utf8 =>
    obtain ⟨inner, token, decoded⟩ := readToken_quoted utf8 rest
    rw [writeValue, readValue, skipCommentTokens_of token Token.noConfusion]
    simp only [decoded, Node.normalise_stringValue]
  | boolean value =>
    have literal : skipCommentTokens (writeValue printf (.booleanValue value) ++ rest) =
        (if value then .tokenTrue else .tokenFalse, rest) := by
      cases value with
      | false => exact skipCommentTokens_of rfl Token.noConfusion
      | true => exact skipCommentTokens_of rfl Token.noConfusion
    rw [readValue, literal, Node.normalise_booleanValue]
    cases value <;> rfl
  | array => cases noArray
  | object => cases noObject

theorem readValue_array {items : Items} {stack : Nat}
    (counted : (Node.arrayValue items).size.toNat < 2 ^ 31)
    (opens : ∀ index, Opens (writeValue printf (element items index)))
    (reads : ∀ index < (Node.arrayValue items).size.toNat, ∀ rest, Fenced rest →
      readValue strtod stack (writeValue printf (element items index) ++ rest) =
        .ok ((element items index).normalise, rest)) (rest : Bytes) :
    readValue strtod (stack + 1) (writeValue printf (.arrayValue items) ++ rest) =
      .ok ((Node.arrayValue items).normalise, rest) := by
  have opening : text "[" = [91] := by decide
  have closing : text "]" = [93] := by decide
  have bracket (behind : Bytes) : skipCommentTokens (91 :: behind) = (.tokenArrayBegin, behind) :=
    skipCommentTokens_of (readToken_symbol rfl behind) Token.noConfusion
  have shape : writeValue printf (.arrayValue items) ++ rest =
      91 :: ((text ",").intercalate ((List.range (Node.arrayValue items).size.toNat).map
        (fun index => writeValue printf (element items index))) ++ 93 :: rest) := by
    rw [writeValue, elements_eq, opening, closing, List.append_assoc, List.append_assoc]
    rfl
  rw [shape, normalise_array, readValue, bracket]
  generalize (Node.arrayValue items).size.toNat = count at counted reads ⊢
  cases count with
  | zero => rfl
  | succ count =>
    have written (index : Nat) : writeValue printf (element items index) ≠ [] := by
      obtain ⟨_, _, same, _⟩ := opens index
      rw [same]
      exact List.cons_ne_nil _ _
    have first : ∃ later, (text ",").intercalate ((List.range (count + 1)).map
        (fun index => writeValue printf (element items index))) ++ 93 :: rest =
          writeValue printf (element items 0) ++ later := by
      rw [List.range_succ_eq_map, List.map_cons]
      cases (List.map Nat.succ (List.range count)).map
          (fun index => writeValue printf (element items index)) with
      | nil => exact ⟨93 :: rest, by rw [List.intercalate_singleton]⟩
      | cons next more =>
        rw [List.intercalate_cons_cons, List.append_assoc, List.append_assoc]
        exact ⟨_, rfl⟩
    have loop := @readItems_written (readValue strtod stack)
      (fun index => writeValue printf (element items index))
      (fun index => (element items index).normalise) 0 (count + 1)
      (fun index _ below rest fenced => reads index (by omega) rest fenced) (Nat.succ_pos count) (by omega)
    rw [← List.range_eq_range'] at loop
    have nonempty : ∀ part ∈ (List.range (count + 1)).map
        (fun index => writeValue printf (element items index)), part ≠ [] := by
      intro part member
      obtain ⟨index, -, rfl⟩ := List.mem_map.mp member
      exact written index
    have enough := length_le_intercalate (text ",") nonempty
    rw [List.length_map, List.length_range] at enough
    generalize (text ",").intercalate ((List.range (count + 1)).map
      (fun index => writeValue printf (element items index))) = body at *
    obtain ⟨later, front⟩ := first
    have start : skipSpaces (body ++ 93 :: rest) = body ++ 93 :: rest := by
      rw [front]
      exact (opens 0).skipSpaces later
    simp only [start]
    split
    · rename_i same
      obtain ⟨c, behind, form, -, other⟩ := opens 0
      rw [same, form] at front
      cases front
      exact absurd rfl other
    · rw [loop (by rw [List.length_append]; omega)]
      rfl

theorem readValue_object {members : Members} {stack : Nat}
    (names : members.Pairwise (fun member later => member.1 < later.1))
    (utf8 : ∀ member ∈ members, Utf8 member.1)
    (reads : ∀ member ∈ members, ∀ rest, Fenced rest →
      readValue strtod stack (writeValue printf member.2 ++ rest) =
        .ok (member.2.normalise, rest)) (rest : Bytes) :
    readValue strtod (stack + 1) (writeValue printf (.objectValue members) ++ rest) =
      .ok ((Node.objectValue members).normalise, rest) := by
  have opening : text "\x7b" = [123] := by decide
  have closing : text "\x7d" = [125] := by decide
  have brace (behind : Bytes) : skipCommentTokens (123 :: behind) = (.tokenObjectBegin, behind) :=
    skipCommentTokens_of (readToken_symbol rfl behind) Token.noConfusion
  have shape : writeValue printf (.objectValue members) ++ rest =
      123 :: ((text ",").intercalate (members.map (memberText printf)) ++ 125 :: rest) := by
    rw [writeValue, writeMembers_eq, opening, closing, List.append_assoc, List.append_assoc]
    rfl
  rw [shape, Node.normalise, Node.normaliseMembers_eq, readValue, brace]
  cases members with
  | nil =>
    have close : skipCommentTokens (125 :: rest) = (.tokenObjectEnd, rest) :=
      skipCommentTokens_of (readToken_symbol rfl rest) Token.noConfusion
    simp only [List.map_nil, List.intercalate_nil, List.nil_append, readMembers, close, if_true, bind,
      Except.bind]
  | cons member later =>
    have nonempty : ∀ part ∈ (member :: later).map (memberText printf), part ≠ [] := by
      intro part present
      obtain ⟨one, there, rfl⟩ := List.mem_map.mp present
      obtain ⟨inner, written, -⟩ := valueToQuotedStringN_inner (utf8 one there)
      rw [memberText, written]
      exact List.cons_ne_nil _ _
    have enough := length_le_intercalate (text ",") nonempty
    rw [List.length_map] at enough
    have room : (member :: later).length ≤ ((text ",").intercalate
        ((member :: later).map (memberText printf)) ++ 125 :: rest).length + 1 := by
      rw [List.length_append]
      omega
    have none : ∀ earlier ∈ ([] : Members), ∀ present ∈ member :: later, earlier.1 < present.1 :=
      fun earlier present => absurd present List.not_mem_nil
    have loop := readMembers_written reads utf8 names (List.cons_ne_nil _ _) room true none rest
    simp only [loop, List.nil_append, bind, Except.bind]

/-- A value is read back in the place where it was written. -/
theorem readValue_writeValue {node : Node} (portable : Portable printf strtod node)
    (ordered : node.Ordered) {stack : Nat} (flat : node.levels ≤ stack) {rest : Bytes}
    (fenced : Fenced rest) :
    readValue strtod stack (writeValue printf node ++ rest) = .ok (node.normalise, rest) := by
  induction node using Node.induction generalizing stack rest with
  | leaf node noArray noObject =>
    obtain ⟨less, rfl⟩ := Nat.exists_eq_succ_of_ne_zero
      (Nat.ne_of_gt (Nat.lt_of_lt_of_le node.levels_pos flat))
    exact readValue_leaf portable noArray noObject fenced
  | array items ih =>
    rw [Node.levels] at flat
    obtain ⟨less, rfl⟩ := Nat.exists_eq_succ_of_ne_zero
      (Nat.ne_of_gt (Nat.lt_of_lt_of_le (Nat.succ_pos _) flat))
    cases portable with
    | array counted below =>
      refine readValue_array counted (fun index => ?_) (fun index within rest fenced => ?_) rest
      · rcases element_cases items index with null | ⟨item, member, same⟩
        · rw [null]
          exact @opens_writeValue printf strtod _ .null
        · rw [same]
          exact opens_writeValue (below item member)
      · rcases element_cases items index with null | ⟨item, member, same⟩
        · cases items with
          | nil => cases within
          | cons item others =>
            have member : item ∈ item :: others := List.mem_cons_self
            have low := Node.levels_item member
            have pos := item.2.levels_pos
            obtain ⟨less, rfl⟩ : ∃ fewer, less = fewer + 1 :=
              Nat.exists_eq_succ_of_ne_zero (by omega)
            rw [null]
            exact readValue_leaf .null rfl rfl fenced
        · have low := Node.levels_item member
          rw [same]
          exact ih item member (below item member) (ordered.item member) (by omega) fenced
  | object members ih =>
    rw [Node.levels] at flat
    obtain ⟨less, rfl⟩ := Nat.exists_eq_succ_of_ne_zero
      (Nat.ne_of_gt (Nat.lt_of_lt_of_le (Nat.succ_pos _) flat))
    cases portable with
    | object names below =>
      refine readValue_object ordered.names names (fun member present rest fenced => ?_) rest
      have low := Node.levels_member present
      exact ih member present (below member present) (ordered.member present) (by omega) fenced

end FastWriter

end TalusVSwitch.Json
