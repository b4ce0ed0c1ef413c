import Mathlib.Algebra.Group.Nat.Defs
import TalusVSwitch.JsonValue

/-! `Json::Reader` of jsoncpp, as `parseJson` uses it: the tokens of a text, and the value
they make. -/

namespace TalusVSwitch.Json

/-- `codePointToUTF8` -/
def codePointToUTF8 (cp : UInt32) : Bytes :=
  let byte (mark mask shift : UInt32) : UInt8 := (mark ||| (mask &&& (cp >>> shift))).toUInt8
  if cp ≤ 0x7F then [cp.toUInt8]
  else if cp ≤ 0x7FF then [byte 0xC0 0x1F 6, byte 0x80 0x3F 0]
  else if cp ≤ 0xFFFF then [byte 0xE0 0xF 12, byte 0x80 0x3F 6, byte 0x80 0x3F 0]
  else if cp ≤ 0x10FFFF then
    [byte 0xF0 0x7 18, byte 0x80 0x3F 12, byte 0x80 0x3F 6, byte 0x80 0x3F 0]
  else []

namespace Reader

/-- What a text comes to that makes no value: `parse` is false, or throws. -/
inductive Failure where
  | rejected
  | thrown
  /-- A loop went round more often than there are characters, which none does. -/
  | exhausted
deriving DecidableEq, Repr

/-- A token, a string with what is between its quotes and a number with its text. -/
inductive Token where
  | tokenEndOfStream
  | tokenObjectBegin
  | tokenObjectEnd
  | tokenArrayBegin
  | tokenArrayEnd
  | tokenString (inner : Bytes)
  | tokenNumber (token : Bytes)
  | tokenTrue
  | tokenFalse
  | tokenNull
  | tokenArraySeparator
  | tokenMemberSeparator
  | tokenComment
  | tokenError
deriving DecidableEq, Repr

def isDigit (c : UInt8) : Bool := 48 ≤ c && c ≤ 57

def skipSpaces (bytes : Bytes) : Bytes :=
  bytes.dropWhile (fun c => c == 32 || c == 9 || c == 13 || c == 10)

/-- `readCStyleComment`. A slash that ends the text closes the comment, whatever is
before it. -/
def readCStyleComment : Bytes → Option Bytes
  | [] => none
  | [c] => if c = 47 then some [] else none
  | c :: next :: rest =>
    if c = 42 ∧ next = 47 then some rest else readCStyleComment (next :: rest)

/-- The line feed behind a carriage return. -/
def skipLineFeed : Bytes → Bytes
  | [] => []
  | c :: rest => if c = 10 then rest else c :: rest

def readCppStyleComment : Bytes → Bytes
  | [] => []
  | c :: rest =>
    if c = 10 then rest else if c = 13 then skipLineFeed rest else readCppStyleComment rest

/-- `readComment`, behind the first slash: whether it is one, and what is left. -/
def readComment : Bytes → Bool × Bytes
  | 42 :: rest =>
    match readCStyleComment rest with
    | some behind => (true, behind)
    | none => (false, [])
  | 47 :: rest => (true, readCppStyleComment rest)
  | _ :: rest => (false, rest)
  | [] => (false, [])

/-- What the fractional part leaves. -/
def readFraction : Bytes → Bytes
  | [] => []
  | c :: rest => if c = 46 then rest.dropWhile isDigit else c :: rest

def skipSign : Bytes → Bytes
  | [] => []
  | c :: rest => if c = 43 ∨ c = 45 then rest else c :: rest

/-- What the exponential part leaves. -/
def readExponent : Bytes → Bytes
  | [] => []
  | c :: rest => if c = 101 ∨ c = 69 then (skipSign rest).dropWhile isDigit else c :: rest

/-- What `readNumber` leaves. -/
def readNumber (bytes : Bytes) : Bytes := readExponent (readFraction (bytes.dropWhile isDigit))

/-- `readString`, behind the quote: what is up to the next quote that no backslash escapes,
and what is behind that. -/
def readString : Bytes → Option (Bytes × Bytes)
  | [] => none
  | [c] => if c = 34 then some ([], []) else none
  | c :: next :: rest =>
    if c = 34 then some ([], next :: rest)
    else if c = 92 then (readString rest).map (fun read => (c :: next :: read.1, read.2))
    else (readString (next :: rest)).map (fun read => (c :: read.1, read.2))

/-- `Reader::match`, of the letters behind the first of a literal. -/
def matchLiteral (pattern : Bytes) (token : Token) (bytes : Bytes) : Token × Bytes :=
  if pattern.isPrefixOf bytes then (token, bytes.drop pattern.length) else (.tokenError, bytes)

/-- The tokens of one character. A NUL is one too. -/
def symbols : List (UInt8 × Token) :=
  [(123, .tokenObjectBegin), (125, .tokenObjectEnd), (91, .tokenArrayBegin), (93, .tokenArrayEnd),
    (44, .tokenArraySeparator), (58, .tokenMemberSeparator), (0, .tokenEndOfStream)]

/-- The literals, by their first letters. -/
def literals : List (UInt8 × Bytes × Token) :=
  [(116, text "rue", .tokenTrue), (102, text "alse", .tokenFalse), (110, text "ull", .tokenNull)]

/-- `readToken`. It is false for an error. -/
def readToken (bytes : Bytes) : Token × Bytes :=
  match skipSpaces bytes with
  | [] => (.tokenEndOfStream, [])
  | c :: rest =>
    match symbols.lookup c with
    | some token => (token, rest)
    | none =>
      if c = 34 then
        match readString rest with
        | some (inner, behind) => (.tokenString inner, behind)
        | none => (.tokenError, [])
      else if c = 47 then
        match readComment rest with
        | (true, behind) => (.tokenComment, behind)
        | (false, behind) => (.tokenError, behind)
      else if isDigit c || c == 45 then
        let behind := readNumber rest
        (.tokenNumber (c :: rest.take (rest.length - behind.length)), behind)
      else
        match literals.lookup c with
        | some (pattern, token) => matchLiteral pattern token rest
        | none => (.tokenError, rest)

/-- `decodeUnicodeEscapeSequence` -/
def decodeUnicodeEscapeSequence : Bytes → Option (UInt32 × Bytes)
  | first :: second :: third :: fourth :: rest => do
    let digits ← [first, second, third, fourth].mapM (digitOf 16)
    some (UInt32.ofNat (Numeral.value 16 digits), rest)
  | _ => none

/-- `decodeUnicodeCodePoint`. Of the second half of a pair only the ten low bits count. -/
def decodeUnicodeCodePoint (bytes : Bytes) : Option (UInt32 × Bytes) := do
  let (unicode, rest) ← decodeUnicodeEscapeSequence bytes
  if 0xD800 ≤ unicode ∧ unicode ≤ 0xDBFF then
    match rest with
    | 92 :: 117 :: second => do
      let (surrogatePair, rest) ← decodeUnicodeEscapeSequence second
      some ((0x10000 : UInt32) + ((unicode &&& 0x3FF) <<< 10) + (surrogatePair &&& 0x3FF), rest)
    | _ => none
  else some (unicode, rest)

/-- The letters behind a backslash that stand for a character. -/
def unescapes : List (UInt8 × UInt8) :=
  [(34, 34), (47, 47), (92, 92), (98, 8), (102, 12), (110, 10), (114, 13), (116, 9)]

theorem decodeUnicodeEscapeSequence_length {bytes rest : Bytes} {unicode : UInt32}
    (decoded : decodeUnicodeEscapeSequence bytes = some (unicode, rest)) :
    rest.length < bytes.length := by
  unfold decodeUnicodeEscapeSequence at decoded
  split at decoded
  · obtain ⟨digits, _, same⟩ := Option.bind_eq_some_iff.mp decoded
    cases same
    simp only [List.length_cons]
    omega
  · cases decoded

theorem decodeUnicodeCodePoint_length {bytes rest : Bytes} {unicode : UInt32}
    (decoded : decodeUnicodeCodePoint bytes = some (unicode, rest)) :
    rest.length < bytes.length := by
  obtain ⟨⟨first, behind⟩, read, last⟩ := Option.bind_eq_some_iff.mp decoded
  have shorter := decodeUnicodeEscapeSequence_length read
  dsimp only at last
  split_ifs at last
  · split at last
    · rename_i second
      obtain ⟨⟨pair, later⟩, again, same⟩ := Option.bind_eq_some_iff.mp last
      have less := decodeUnicodeEscapeSequence_length again
      cases same
      simp only [List.length_cons] at shorter less ⊢
      omega
    · cases last
  · cases last
    exact shorter

/-- `decodeString`, of what is between the quotes. -/
def decodeString : Bytes → Option Bytes
  | [] => some []
  | c :: rest =>
    if c = 34 then some []
    else if c = 92 then
      match rest with
      | [] => none
      | escape :: behind =>
        match unescapes.lookup escape with
        | some char => (decodeString behind).map (fun decoded => char :: decoded)
        | none =>
          if escape = 117 then
            match _read : decodeUnicodeCodePoint behind with
            | some (unicode, later) =>
              (decodeString later).map (fun decoded => codePointToUTF8 unicode ++ decoded)
            | none => none
          else none
    else (decodeString rest).map (fun decoded => c :: decoded)
termination_by inner => inner.length
decreasing_by
  · simp only [List.length_cons]
    omega
  · have shorter := decodeUnicodeCodePoint_length _read
    simp only [List.length_cons]
    omega
  · simp

/-- The loop of `decodeNumber`. `none` leaves the number to `decodeDouble`. -/
def decodeDigits (maxIntegerValue : UInt64) (value : UInt64) : Bytes → Option UInt64
  | [] => some value
  | c :: rest =>
    if !isDigit c then none
    else
      let digit := (c - 48).toUInt64
      let threshold := maxIntegerValue / 10
      if threshold ≤ value ∧ (threshold < value ∨ rest ≠ [] ∨ maxIntegerValue % 10 < digit) then none
      else decodeDigits maxIntegerValue (value * 10 + digit) rest

/-- `decodeNumber`. `strtod` is the extraction of a `double` from a stream with all of the
token in it. -/
def decodeNumber (strtod : Bytes → Option UInt64) (token : Bytes) : Option Node :=
  let isNegative := token.head? == some 45
  let maxIntegerValue : UInt64 :=
    if isNegative then Int64.maxValue.toUInt64 + 1 else 0xFFFFFFFFFFFFFFFF
  match decodeDigits maxIntegerValue 0 (if isNegative then token.drop 1 else token) with
  | none => (strtod token).map Node.realValue
  | some value =>
    if isNegative && value == maxIntegerValue then some (.intValue Int64.minValue)
    else if isNegative then some (.intValue (-value.toInt64))
    else if value ≤ 0x7FFFFFFF then some (.intValue value.toInt64)
    else some (.uintValue value)

theorem readCStyleComment_length {bytes rest : Bytes}
    (read : readCStyleComment bytes = some rest) : rest.length < bytes.length := by
  induction bytes using readCStyleComment.induct with
  | case1 => cases read
  | case2 => cases read; exact Nat.one_pos
  | case3 c other => rw [readCStyleComment, if_neg other] at read; cases read
  | case4 c next later closed =>
    rw [readCStyleComment, if_pos closed] at read
    cases read
    simp only [List.length_cons]
    omega
  | case5 c next later open_ ih =>
    rw [readCStyleComment, if_neg open_] at read
    exact Nat.lt_succ_of_lt (ih read)

theorem skipLineFeed_length (bytes : Bytes) : (skipLineFeed bytes).length ≤ bytes.length := by
  cases bytes with
  | nil => exact Nat.le_refl _
  | cons c rest =>
    rw [skipLineFeed]
    split_ifs
    · exact Nat.le_succ _
    · exact Nat.le_refl _

theorem readCppStyleComment_length (bytes : Bytes) :
    (readCppStyleComment bytes).length ≤ bytes.length := by
  induction bytes with
  | nil => exact Nat.le_refl _
  | cons c rest ih =>
    rw [readCppStyleComment]
    split_ifs
    · exact Nat.le_succ _
    · exact Nat.le_succ_of_le (skipLineFeed_length rest)
    · exact Nat.le_succ_of_le ih

theorem readComment_length (bytes : Bytes) : (readComment bytes).2.length ≤ bytes.length := by
  unfold readComment
  split
  · split
    · rename_i read
      exact Nat.le_of_lt (Nat.lt_succ_of_lt (readCStyleComment_length read))
    · exact Nat.zero_le _
  · exact Nat.le_succ_of_le (readCppStyleComment_length _)
  · exact Nat.le_succ _
  · exact Nat.le_refl _

theorem length_dropWhile_le (holds : UInt8 → Bool) (bytes : Bytes) :
    (bytes.dropWhile holds).length ≤ bytes.length :=
  (List.dropWhile_suffix holds).length_le

theorem readNumber_length (bytes : Bytes) : (readNumber bytes).length ≤ bytes.length := by
  have fraction (bytes : Bytes) : (readFraction bytes).length ≤ bytes.length := by
    cases bytes with
    | nil => exact Nat.le_refl _
    | cons c rest =>
      rw [readFraction]
      split_ifs
      · exact Nat.le_succ_of_le (length_dropWhile_le isDigit rest)
      · exact Nat.le_refl _
  have sign (bytes : Bytes) : (skipSign bytes).length ≤ bytes.length := by
    cases bytes with
    | nil => exact Nat.le_refl _
    | cons c rest =>
      rw [skipSign]
      split_ifs
      · exact Nat.le_succ _
      · exact Nat.le_refl _
  have exponent (bytes : Bytes) : (readExponent bytes).length ≤ bytes.length := by
    cases bytes with
    | nil => exact Nat.le_refl _
    | cons c rest =>
      rw [readExponent]
      split_ifs
      · exact Nat.le_succ_of_le ((length_dropWhile_le isDigit _).trans (sign rest))
      · exact Nat.le_refl _
  exact (exponent _).trans ((fraction _).trans (length_dropWhile_le isDigit bytes))

theorem readString_length {bytes inner rest : Bytes}
    (read : readString bytes = some (inner, rest)) : rest.length < bytes.length := by
  induction bytes using readString.induct generalizing inner with
  | case1 => cases read
  | case2 => cases read; exact Nat.one_pos
  | case3 c other => rw [readString, if_neg other] at read; cases read
  | case4 next later =>
    rw [readString, if_pos rfl] at read
    cases read
    simp
  | case5 next later _ ih =>
    rw [readString, if_neg (by decide), if_pos rfl] at read
    obtain ⟨⟨front, behind⟩, again, same⟩ := Option.map_eq_some_iff.mp read
    cases same
    have shorter := ih again
    simp only [List.length_cons] at shorter ⊢
    omega
  | case6 c next later noQuote noEscape ih =>
    rw [readString, if_neg noQuote, if_neg noEscape] at read
    obtain ⟨⟨front, behind⟩, again, same⟩ := Option.map_eq_some_iff.mp read
    cases same
    exact Nat.lt_succ_of_lt (ih again)

theorem matchLiteral_length (pattern : Bytes) (token : Token) (bytes : Bytes) :
    (matchLiteral pattern token bytes).2.length ≤ bytes.length := by
  rw [matchLiteral]
  split_ifs
  · exact (List.length_drop).trans_le (Nat.sub_le _ _)
  · exact Nat.le_refl _

/-- A token takes what it begins with off the text. -/
theorem readToken_behind {bytes rest : Bytes} {c : UInt8} (shape : skipSpaces bytes = c :: rest) :
    (readToken bytes).2.length ≤ rest.length := by
  unfold readToken
  rw [shape]
  dsimp only
  split
  · exact Nat.le_refl _
  · split_ifs
    · split
      · rename_i read
        exact Nat.le_of_lt (readString_length read)
      · exact Nat.zero_le _
    · have shorter := readComment_length rest
      split <;> rename_i read <;> rwa [read] at shorter
    · exact readNumber_length rest
    · split
      · exact matchLiteral_length _ _ rest
      · exact Nat.le_refl _

theorem skipSpaces_length (bytes : Bytes) : (skipSpaces bytes).length ≤ bytes.length :=
  length_dropWhile_le _ bytes

theorem readToken_end {bytes : Bytes} (shape : skipSpaces bytes = []) :
    readToken bytes = (.tokenEndOfStream, []) := by
  rw [readToken, shape]

theorem readToken_length {bytes : Bytes} (more : (readToken bytes).1 ≠ .tokenEndOfStream) :
    (readToken bytes).2.length < bytes.length := by
  have spaces := skipSpaces_length bytes
  cases shape : skipSpaces bytes with
  | nil => exact absurd (congrArg Prod.fst (readToken_end shape)) more
  | cons c rest =>
    rw [shape, List.length_cons] at spaces
    exact Nat.lt_of_lt_of_le (Nat.lt_succ_of_le (readToken_behind shape)) spaces

/-- `skipCommentTokens`: the next token that is no comment. -/
def skipCommentTokens (bytes : Bytes) : Token × Bytes :=
  match _next : readToken bytes with
  | (.tokenComment, rest) => skipCommentTokens rest
  | other => other
termination_by bytes.length
decreasing_by
  have shorter := @readToken_length bytes (by rw [_next]; exact Token.noConfusion)
  rwa [_next] at shorter

/-- The loop of `readObject`, for the members read so far, of which the last has no name if
`name.empty()`. `read` is `readValue` for a member. -/
def readMembers (read : Bytes → Except Failure (Node × Bytes)) :
    Nat → Bool → Members → Bytes → Except Failure (Members × Bytes)
  | 0, _, _, _ => .error .exhausted
  | fuel + 1, unnamed, members, bytes =>
    match skipCommentTokens bytes with
    | (.tokenObjectEnd, rest) => if unnamed then .ok (members, rest) else .error .rejected
    | (.tokenString inner, rest) =>
      match decodeString inner, readToken rest with
      | some name, (.tokenMemberSeparator, rest) => do
        let (child, rest) ← read rest
        let members := assign (resolveReference members name).2 name child
        match readToken rest with
        | (.tokenObjectEnd, rest) => .ok (members, rest)
        | (.tokenArraySeparator, rest) => readMembers read fuel name.isEmpty members rest
        | (.tokenComment, rest) =>
          match skipCommentTokens rest with
          | (.tokenObjectEnd, rest) => .ok (members, rest)
          -- behind a comment, any token passes for the comma
          | (_, rest) => readMembers read fuel name.isEmpty members rest
        | _ => .error .rejected
      | _, _ => .error .rejected
    | _ => .error .rejected

/-- The loop of `readArray`, with the index of the next element, an `int`. -/
def readItems (read : Bytes → Except Failure (Node × Bytes)) :
    Nat → Nat → Items → Bytes → Except Failure (Items × Bytes)
  | 0, _, _, _ => .error .exhausted
  | fuel + 1, index, items, bytes =>
    if 2 ^ 31 ≤ index then .error .thrown
    else do
      let (child, rest) ← read bytes
      let items := items ++ [(UInt32.ofNat index, child)]
      match skipCommentTokens rest with
      | (.tokenArraySeparator, rest) => readItems read fuel (index + 1) items rest
      | (.tokenArrayEnd, rest) => .ok (items, rest)
      | _ => .error .rejected

/-- `readValue`, with so many nodes that `nodes_` may still hold. -/
def readValue (strtod : Bytes → Option UInt64) : Nat → Bytes → Except Failure (Node × Bytes)
  | 0, _ => .error .thrown
  | stack + 1, bytes =>
    match skipCommentTokens bytes with
    | (.tokenObjectBegin, rest) => do
      let (members, rest) ← readMembers (readValue strtod stack) (rest.length + 1) true [] rest
      .ok (.objectValue members, rest)
    | (.tokenArrayBegin, rest) =>
      match skipSpaces rest with
      | 93 :: rest => .ok (.arrayValue [], rest)
      | rest => do
        let (items, rest) ← readItems (readValue strtod stack) (rest.length + 1) 0 [] rest
        .ok (.arrayValue items, rest)
    | (.tokenNumber token, rest) =>
      match decodeNumber strtod token with
      | some number => .ok (number, rest)
      | none => .error .rejected
    | (.tokenString inner, rest) =>
      match decodeString inner with
      | some value => .ok (.stringValue value, rest)
      | none => .error .rejected
    | (.tokenTrue, rest) => .ok (.booleanValue true, rest)
    | (.tokenFalse, rest) => .ok (.booleanValue false, rest)
    | (.tokenNull, rest) => .ok (.nullValue, rest)
    | _ => .error .rejected

/-- `stackLimit_g` -/
def stackLimit : Nat := 1000

/-- `Reader::parse`, and so `parseJson`: what is behind the value is not looked at. -/
def parse (strtod : Bytes → Option UInt64) (document : Bytes) : Except Failure Node :=
  (readValue strtod stackLimit document).map Prod.fst

end Reader

end TalusVSwitch.Json
