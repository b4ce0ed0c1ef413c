import TalusVSwitch.CText
import TalusVSwitch.SockAddr

namespace TalusVSwitch

/-- `inet_ntop` and `inet_pton`, for each of the two families. -/
structure InetText where
  ntop4 : UInt32 → Bytes
  ntop6 : In6Addr → Bytes
  pton4 : Bytes → Option UInt32
  pton6 : Bytes → Option In6Addr

/-- A nonempty C string without the delimiters of a peer list. -/
structure PlainText (bytes : Bytes) : Prop where
  nonempty : bytes ≠ []
  noComma : 44 ∉ bytes
  noDash : 45 ∉ bytes
  noNul : 0 ∉ bytes

/-- What is documented of the two functions: the text of an address is plain and reads
back in its own family, and a text of IPv6 is none of IPv4. -/
structure InetText.Documented (inet : InetText) : Prop where
  plain4 : ∀ addr, PlainText (inet.ntop4 addr)
  plain6 : ∀ addr, PlainText (inet.ntop6 addr)
  inverse4 : ∀ addr, inet.pton4 (inet.ntop4 addr) = some addr
  inverse6 : ∀ addr, inet.pton6 (inet.ntop6 addr) = some addr
  families : ∀ addr, inet.pton4 (inet.ntop6 addr) = none

namespace SockUtil

variable (inet : InetText)

/-- `SockUtil::inet_ntoa` -/
def inet_ntoa : SockAddr → Bytes
  | .unspec => []
  | .inet addr _ => inet.ntop4 addr
  | .inet6 addr _ => if addr.isV4Mapped then inet.ntop4 addr.word3 else inet.ntop6 addr

/-- `SockUtil::make_sockaddr`. `none` is its exception. -/
def make_sockaddr (host : Bytes) (port : UInt16) : Option SockAddr :=
  match inet.pton4 host with
  | some addr => some (.inet addr port)
  | none => (inet.pton6 host).map (fun addr6 => .inet6 addr6 port)

variable {inet}

theorem plain_inet_ntoa (documented : inet.Documented) {addr : SockAddr} (named : addr ≠ .unspec) :
    PlainText (inet_ntoa inet addr) := by
  cases addr with
  | unspec => exact absurd rfl named
  | inet addr port => exact documented.plain4 addr
  | inet6 addr port =>
    rw [inet_ntoa]
    split
    · exact documented.plain4 addr.word3
    · exact documented.plain6 addr

theorem inet_ntoa_noComma (documented : inet.Documented) (addr : SockAddr) :
    44 ∉ inet_ntoa inet addr := by
  by_cases named : addr = .unspec
  · subst named
    exact List.not_mem_nil
  · exact (plain_inet_ntoa documented named).noComma

theorem make_sockaddr_port {host : Bytes} {port : UInt16} {addr : SockAddr}
    (made : make_sockaddr inet host port = some addr) : addr.inet_port = port := by
  unfold make_sockaddr at made
  split at made
  · cases made
    rfl
  · obtain ⟨addr6, _, rfl⟩ := Option.map_eq_some_iff.mp made
    rfl

/-- The text of an address reads back as an address of the same endpoint, an
IPv4-mapped one as IPv4. -/
theorem make_sockaddr_inet_ntoa (documented : inet.Documented) {addr : SockAddr}
    (named : addr ≠ .unspec) :
    ∃ decoded, make_sockaddr inet (inet_ntoa inet addr) addr.inet_port = some decoded ∧
      decoded.endpoint = addr.endpoint := by
  cases addr with
  | unspec => exact absurd rfl named
  | inet addr port => exact ⟨.inet addr port, by simp [make_sockaddr, inet_ntoa,
      documented.inverse4, SockAddr.inet_port], rfl⟩
  | inet6 addr port =>
    by_cases mapped : addr.isV4Mapped = true
    · exact ⟨.inet addr.word3 port, by simp [make_sockaddr, inet_ntoa, mapped,
        documented.inverse4, SockAddr.inet_port], by simp [SockAddr.endpoint, mapped]⟩
    · exact ⟨.inet6 addr port, by simp [make_sockaddr, inet_ntoa, mapped, documented.families,
        documented.inverse6, SockAddr.inet_port], rfl⟩

end SockUtil

/-- A number from a text of digits alone. -/
def readNumeral (base : Nat) (bytes : Bytes) : Option Nat :=
  if !bytes.isEmpty && bytes.all (fun byte => (digitOf base byte).isSome) then
    some (Numeral.value base (digits base bytes))
  else none

def groupsText (base : Nat) (separator : UInt8) (numbers : List Nat) : Bytes :=
  [separator].intercalate (numbers.map (numeralText base))

def readGroups (base : Nat) (separator : UInt8) (bytes : Bytes) : Option (List Nat) :=
  (bytes.splitOn separator).mapM (readNumeral base)

/-- Dotted decimals, and IPv6 with all its eight groups written out. -/
def InetText.unabridged : InetText where
  ntop4 addr := groupsText 10 46
    [addr.toNat / 16777216, addr.toNat / 65536 % 256, addr.toNat / 256 % 256, addr.toNat % 256]
  ntop6 addr := groupsText 16 58
    ([addr.word0, addr.word1, addr.word2, addr.word3].flatMap
      (fun word => [word.toNat / 65536, word.toNat % 65536]))
  pton4 host :=
    match readGroups 10 46 host with
    | some [a, b, c, d] =>
      if a < 256 ∧ b < 256 ∧ c < 256 ∧ d < 256 then
        some (UInt32.ofNat (a * 16777216 + b * 65536 + c * 256 + d))
      else none
    | _ => none
  pton6 host :=
    match readGroups 16 58 host with
    | some [a, b, c, d, e, f, g, h] =>
      if a < 65536 ∧ b < 65536 ∧ c < 65536 ∧ d < 65536 ∧ e < 65536 ∧ f < 65536 ∧ g < 65536 ∧
          h < 65536 then
        some ⟨UInt32.ofNat (a * 65536 + b), UInt32.ofNat (c * 65536 + d),
          UInt32.ofNat (e * 65536 + f), UInt32.ofNat (g * 65536 + h)⟩
      else none
    | _ => none

theorem readNumeral_numeralText {base : Nat} (large : 1 < base) (small : base ≤ 16) (number : Nat) :
    readNumeral base (numeralText base number) = some number := by
  have plain : (numeralText base number).all (fun byte => (digitOf base byte).isSome) = true :=
    List.all_eq_true.mpr (numeralText_digit large small)
  rw [readNumeral, plain, value_numeralText large small]
  simp [numeralText_ne_nil]

theorem readGroups_groupsText {base : Nat} (large : 1 < base) (small : base ≤ 16) {separator : UInt8}
    (sign : NoDigit separator) {numbers : List Nat} (nonempty : numbers ≠ []) :
    readGroups base separator (groupsText base separator numbers) = some numbers := by
  have apart : ∀ part ∈ numbers.map (numeralText base), separator ∉ part := by
    intro part member
    obtain ⟨number, _, rfl⟩ := List.mem_map.mp member
    exact numeralText_notMem large small number sign
  rw [readGroups, groupsText, List.splitOn_intercalate separator apart (by simpa using nonempty)]
  induction numbers with
  | nil => exact absurd rfl nonempty
  | cons number rest ih =>
    cases rest with
    | nil => simp [readNumeral_numeralText large small]
    | cons next others =>
      rw [List.map_cons, List.mapM_cons, readNumeral_numeralText large small,
        ih (List.cons_ne_nil _ _) (fun part member => apart part (List.mem_cons_of_mem _ member))]
      rfl

theorem groupsText_notMem {base : Nat} (large : 1 < base) (small : base ≤ 16)
    {separator code : UInt8} (sign : NoDigit code) (other : code ≠ separator) (numbers : List Nat) :
    code ∉ groupsText base separator numbers := by
  apply Pieces.notMem_intercalate _ other
  intro part member
  obtain ⟨number, _, rfl⟩ := List.mem_map.mp member
  exact numeralText_notMem large small number sign

theorem plain_groupsText {base : Nat} (large : 1 < base) (small : base ≤ 16) {separator : UInt8}
    (sign : NoDigit separator) (ordinary : separator ≠ 44 ∧ separator ≠ 45 ∧ separator ≠ 0)
    {numbers : List Nat} (nonempty : numbers ≠ []) :
    PlainText (groupsText base separator numbers) := by
  obtain ⟨comma, dash, nul⟩ := ordinary
  refine ⟨?_, groupsText_notMem large small (by decide) comma.symm numbers,
    groupsText_notMem large small (by decide) dash.symm numbers,
    groupsText_notMem large small (by decide) nul.symm numbers⟩
  intro empty
  have read := readGroups_groupsText large small sign nonempty
  rw [empty] at read
  cases read

theorem readGroups_foreign {base other : Nat} (large : 1 < base) (small : base ≤ 16)
    (small' : other ≤ 16) {separator separator' : UInt8} (sign : NoDigit separator)
    (sign' : NoDigit separator') (different : separator' ≠ separator) (first second : Nat)
    (numbers : List Nat) :
    readGroups other separator' (groupsText base separator (first :: second :: numbers)) = none := by
  have separates : separator ∈ groupsText base separator (first :: second :: numbers) := by
    rw [groupsText, List.map_cons, List.map_cons, List.intercalate_cons_cons]
    simp
  have unread : readNumeral other (groupsText base separator (first :: second :: numbers)) = none := by
    rw [readNumeral, if_neg]
    rw [Bool.and_eq_true, List.all_eq_true]
    rintro ⟨_, plain⟩
    exact digit_ne small' (plain separator separates) sign rfl
  rw [readGroups, List.splitOn_eq_singleton (groupsText_notMem large small sign' different _),
    List.mapM_cons, unread]
  rfl

theorem unabridged_documented : InetText.unabridged.Documented where
  plain4 addr := plain_groupsText (by decide) (by decide) (by decide) (by decide) (List.cons_ne_nil _ _)
  plain6 addr := plain_groupsText (by decide) (by decide) (by decide) (by decide) (List.cons_ne_nil _ _)
  inverse4 addr := by
    have bound := addr.toNat_lt
    simp only [InetText.unabridged, readGroups_groupsText (show 1 < 10 by decide)
      (show 10 ≤ 16 by decide) (show NoDigit 46 by decide) (List.cons_ne_nil _ _)]
    rw [if_pos (by omega), Option.some.injEq]
    apply UInt32.toNat_inj.mp
    simp only [UInt32.toNat_ofNat']
    omega
  inverse6 addr := by
    obtain ⟨word0, word1, word2, word3⟩ := addr
    have bound0 := word0.toNat_lt
    have bound1 := word1.toNat_lt
    have bound2 := word2.toNat_lt
    have bound3 := word3.toNat_lt
    have halves (word : UInt32) :
        UInt32.ofNat (word.toNat / 65536 * 65536 + word.toNat % 65536) = word := by
      rw [Nat.div_add_mod', UInt32.ofNat_toNat]
    simp only [InetText.unabridged, List.flatMap_cons, List.flatMap_nil, List.cons_append,
      List.nil_append, List.append_nil, readGroups_groupsText (show 1 < 16 by decide)
      (show 16 ≤ 16 by decide) (show NoDigit 58 by decide) (List.cons_ne_nil _ _)]
    rw [if_pos (by omega), halves, halves, halves, halves]
  families addr := by
    simp only [InetText.unabridged, List.flatMap_cons, List.cons_append, List.nil_append]
    rw [readGroups_foreign (by decide) (by decide) (by decide) (by decide) (by decide) (by decide)]

end TalusVSwitch
