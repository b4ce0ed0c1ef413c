import Mathlib.Data.List.Basic

namespace TalusVSwitch

/-- `in6_addr` as its four 32-bit words, in network order. -/
structure In6Addr where
  word0 : UInt32
  word1 : UInt32
  word2 : UInt32
  word3 : UInt32
deriving DecidableEq, Repr

/-- `sockaddr_storage`: the zeroed storage, `sockaddr_in` or `sockaddr_in6`.
Flow label and scope id are compared nowhere. -/
inductive SockAddr where
  | unspec
  | inet (sin_addr : UInt32) (sin_port : UInt16)
  | inet6 (sin6_addr : In6Addr) (sin6_port : UInt16)
deriving DecidableEq, Repr

namespace In6Addr

/-- `IN6_IS_ADDR_V4MAPPED` -/
def isV4Mapped (addr : In6Addr) : Bool :=
  addr.word0 == 0 && addr.word1 == 0 && addr.word2 == 0xffff

/-- The IPv6 form of an IPv4 address, `::ffff:a.b.c.d`. -/
def ofV4 (addr : UInt32) : In6Addr := ⟨0, 0, 0xffff, addr⟩

theorem eq_ofV4 {addr : In6Addr} (mapped : addr.isV4Mapped = true) : addr = ofV4 addr.word3 := by
  obtain ⟨word0, word1, word2, word3⟩ := addr
  simp only [isV4Mapped, Bool.and_eq_true, beq_iff_eq] at mapped
  obtain ⟨⟨rfl, rfl⟩, rfl⟩ := mapped
  rfl

end In6Addr

/-- `SockUtil::inet_port` -/
def SockAddr.inet_port : SockAddr → UInt16
  | .unspec => 0
  | .inet _ port => port
  | .inet6 _ port => port

/-- `compareSockAddr` -/
def compareSockAddr : SockAddr → SockAddr → Bool
  | .inet addr1 port1, .inet addr2 port2 => addr1 == addr2 && port1 == port2
  | .inet addr1 port1, .inet6 addr2 port2 =>
    addr2.isV4Mapped && (addr1 == addr2.word3 && port1 == port2)
  | .inet6 addr1 port1, .inet addr2 port2 =>
    addr1.isV4Mapped && (addr1.word3 == addr2 && port1 == port2)
  | .inet6 addr1 port1, .inet6 addr2 port2 =>
    if addr1.isV4Mapped && !addr2.isV4Mapped then
      -- `memcmp` of the mapped IPv4 address with the first word of the other
      addr1.word3 == addr2.word0 && port1 == port2
    else if !addr1.isV4Mapped && addr2.isV4Mapped then
      addr1.word0 == addr2.word3 && port1 == port2
    else addr1 == addr2 && port1 == port2
  | _, _ => false

/-- An IP address with every IPv4-mapped IPv6 address read as IPv4. -/
inductive Ip where
  | v4 (addr : UInt32)
  | v6 (addr : In6Addr)
deriving DecidableEq, Repr

/-- Where a datagram sent to an address arrives. -/
structure Endpoint where
  ip : Ip
  port : UInt16
deriving DecidableEq, Repr

/-- The endpoint an address names; the zeroed storage names none. -/
def SockAddr.endpoint : SockAddr → Option Endpoint
  | .unspec => none
  | .inet addr port => some ⟨.v4 addr, port⟩
  | .inet6 addr port => some ⟨if addr.isV4Mapped then .v4 addr.word3 else .v6 addr, port⟩

theorem compareSockAddr_comm (one other : SockAddr) :
    compareSockAddr one other = compareSockAddr other one := by
  apply Bool.eq_iff_iff.mpr
  cases one with
  | unspec => cases other <;> exact Iff.rfl
  | inet addr1 port1 =>
    cases other with
    | unspec => exact Iff.rfl
    | inet addr2 port2 => simp [compareSockAddr, @eq_comm _ addr1, @eq_comm _ port1]
    | inet6 addr2 port2 => simp [compareSockAddr, @eq_comm _ addr1, @eq_comm _ port1]
  | inet6 addr1 port1 =>
    cases other with
    | unspec => exact Iff.rfl
    | inet addr2 port2 => simp [compareSockAddr, @eq_comm _ addr2, @eq_comm _ port2]
    | inet6 addr2 port2 =>
      cases mapped1 : addr1.isV4Mapped <;> cases mapped2 : addr2.isV4Mapped <;>
        simp [compareSockAddr, mapped1, mapped2, @eq_comm _ port1, @eq_comm _ addr1,
          @eq_comm _ addr1.word0, @eq_comm _ addr1.word3]

@[simp] theorem compareSockAddr_unspec_left (addr : SockAddr) :
    compareSockAddr .unspec addr = false := rfl

@[simp] theorem compareSockAddr_unspec_right (addr : SockAddr) :
    compareSockAddr addr .unspec = false := by
  cases addr <;> rfl

theorem compareSockAddr_of_endpoint {one other : SockAddr} {endpoint : Endpoint}
    (first : one.endpoint = some endpoint) (second : other.endpoint = some endpoint) :
    compareSockAddr one other = true := by
  have same : one.endpoint = other.endpoint := first.trans second.symm
  cases one with
  | unspec => cases first
  | inet addr1 port1 =>
    cases other with
    | unspec => cases second
    | inet addr2 port2 => simpa [compareSockAddr, SockAddr.endpoint] using same
    | inet6 addr2 port2 =>
      by_cases mapped : addr2.isV4Mapped = true
      · simpa [compareSockAddr, SockAddr.endpoint, mapped] using same
      · simp [SockAddr.endpoint, mapped] at same
  | inet6 addr1 port1 =>
    cases other with
    | unspec => cases second
    | inet addr2 port2 =>
      by_cases mapped : addr1.isV4Mapped = true
      · simpa [compareSockAddr, SockAddr.endpoint, mapped] using same
      · simp [SockAddr.endpoint, mapped] at same
    | inet6 addr2 port2 =>
      by_cases mapped1 : addr1.isV4Mapped = true <;> by_cases mapped2 : addr2.isV4Mapped = true
      · have words : addr1.word3 = addr2.word3 ∧ port1 = port2 := by
          simpa [SockAddr.endpoint, mapped1, mapped2] using same
        have equal : addr1 = addr2 := by
          rw [In6Addr.eq_ofV4 mapped1, In6Addr.eq_ofV4 mapped2, words.1]
        simp [compareSockAddr, mapped2, equal, words.2]
      · simp [SockAddr.endpoint, mapped1, mapped2] at same
      · simp [SockAddr.endpoint, mapped1, mapped2] at same
      · simpa [compareSockAddr, SockAddr.endpoint, mapped1, mapped2] using same

theorem exists_endpoint {addr : SockAddr} (named : addr ≠ .unspec) :
    ∃ endpoint, addr.endpoint = some endpoint := by
  cases addr with
  | unspec => exact absurd rfl named
  | inet => exact ⟨_, rfl⟩
  | inet6 => exact ⟨_, rfl⟩

theorem compareSockAddr_self {addr : SockAddr} (named : addr ≠ .unspec) :
    compareSockAddr addr addr = true := by
  obtain ⟨endpoint, reached⟩ := exists_endpoint named
  exact compareSockAddr_of_endpoint reached reached

theorem inet_port_eq_of_compare {one other : SockAddr}
    (equal : compareSockAddr one other = true) : one.inet_port = other.inet_port := by
  cases one with
  | unspec => cases equal
  | inet addr1 port1 =>
    cases other with
    | unspec => cases equal
    | inet addr2 port2 =>
      simp only [compareSockAddr, Bool.and_eq_true, beq_iff_eq] at equal
      exact equal.2
    | inet6 addr2 port2 =>
      simp only [compareSockAddr, Bool.and_eq_true, beq_iff_eq] at equal
      exact equal.2.2
  | inet6 addr1 port1 =>
    cases other with
    | unspec => cases equal
    | inet addr2 port2 =>
      simp only [compareSockAddr, Bool.and_eq_true, beq_iff_eq] at equal
      exact equal.2.2
    | inet6 addr2 port2 =>
      simp only [compareSockAddr] at equal
      split_ifs at equal <;>
      · simp only [Bool.and_eq_true, beq_iff_eq] at equal
        exact equal.2

theorem exists_inet_of_compare (addr : SockAddr) :
    ∃ sin_addr sin_port, compareSockAddr addr (.inet sin_addr sin_port) = false := by
  refine ⟨0, addr.inet_port + 1, Bool.eq_false_iff.mpr ?_⟩
  intro equal
  have same := inet_port_eq_of_compare equal
  simp [SockAddr.inet_port] at same

/-- An address that no other notation shares: a native IPv6 address. -/
def SockAddr.Native (addr : SockAddr) : Prop :=
  ∀ other : SockAddr, other.endpoint = addr.endpoint → other = addr

theorem native_inet6 {addr : In6Addr} (port : UInt16) (native : addr.isV4Mapped = false) :
    (SockAddr.inet6 addr port).Native := by
  intro other same
  cases other with
  | unspec => cases same
  | inet => simp [SockAddr.endpoint, native] at same
  | inet6 other otherPort =>
    by_cases mapped : other.isV4Mapped = true
    · simp [SockAddr.endpoint, native, mapped] at same
    · simpa [SockAddr.endpoint, native, mapped] using same

/-- An IPv4-mapped and a native IPv6 address of one port, whose first word is the IPv4
address. -/
def Confused : SockAddr → SockAddr → Prop
  | .inet6 addr1 port1, .inet6 addr2 port2 =>
    port1 = port2 ∧
      ((addr1.isV4Mapped = true ∧ addr2.isV4Mapped = false ∧ addr1.word3 = addr2.word0) ∨
      (addr1.isV4Mapped = false ∧ addr2.isV4Mapped = true ∧ addr1.word0 = addr2.word3))
  | _, _ => False

/-- Confused addresses name different endpoints and compare equal all the same. -/
theorem Confused.compare {one other : SockAddr} (confused : Confused one other) :
    one.endpoint ≠ other.endpoint ∧ compareSockAddr one other = true := by
  cases one with
  | unspec => exact confused.elim
  | inet => exact confused.elim
  | inet6 addr1 port1 =>
    cases other with
    | unspec => exact confused.elim
    | inet => exact confused.elim
    | inet6 addr2 port2 =>
      rcases confused with ⟨ports, ⟨mapped, native, word⟩ | ⟨native, mapped, word⟩⟩ <;>
        simp [SockAddr.endpoint, compareSockAddr, mapped, native, ports, word]

theorem endpoint_eq_of_compare {one other : SockAddr} (equal : compareSockAddr one other = true)
    (clear : ¬ Confused one other) : one.endpoint = other.endpoint := by
  cases one with
  | unspec => simp at equal
  | inet addr1 port1 =>
    cases other with
    | unspec => simp at equal
    | inet addr2 port2 => simpa [compareSockAddr, SockAddr.endpoint] using equal
    | inet6 addr2 port2 =>
      simp only [compareSockAddr, Bool.and_eq_true, beq_iff_eq] at equal
      simp [SockAddr.endpoint, equal]
  | inet6 addr1 port1 =>
    cases other with
    | unspec => simp at equal
    | inet addr2 port2 =>
      simp only [compareSockAddr, Bool.and_eq_true, beq_iff_eq] at equal
      simp [SockAddr.endpoint, equal]
    | inet6 addr2 port2 =>
      cases mapped1 : addr1.isV4Mapped <;> cases mapped2 : addr2.isV4Mapped <;>
        simp only [compareSockAddr, Confused, mapped1, mapped2, Bool.not_true, Bool.not_false,
          Bool.and_true, Bool.and_false, Bool.and_eq_true, beq_iff_eq, if_true, if_false,
          Bool.false_eq_true, true_and, false_and, and_false, or_false, false_or, not_and] at equal clear
      · simp [equal]
      · exact absurd equal.1 (clear equal.2)
      · exact absurd equal.1 (clear equal.2)
      · simp [equal]

/-- Where the comparison identifies two endpoints, it compared a mapped with a
native IPv6 address. -/
theorem native_of_compare {one other : SockAddr} (equal : compareSockAddr one other = true)
    (different : one.endpoint ≠ other.endpoint) : one.Native ∨ other.Native := by
  have confused : Confused one other :=
    by_contra fun clear => different (endpoint_eq_of_compare equal clear)
  cases one with
  | unspec => exact confused.elim
  | inet => exact confused.elim
  | inet6 addr1 port1 =>
    cases other with
    | unspec => exact confused.elim
    | inet => exact confused.elim
    | inet6 addr2 port2 =>
      rcases confused with ⟨_, ⟨_, native, _⟩ | ⟨native, _, _⟩⟩
      · exact .inr (native_inet6 port2 native)
      · exact .inl (native_inet6 port1 native)

/-- The comparison decides whether two addresses name one endpoint exactly when it does
not confuse them; it is reflexive and symmetric, and transitive over addresses it does
not confuse. -/
theorem decides_endpoints_iff {one other : SockAddr} (named : one ≠ .unspec) :
    ((compareSockAddr one other = true ↔ one.endpoint = other.endpoint) ↔ ¬ Confused one other) ∧
    compareSockAddr one one = true ∧
    compareSockAddr other one = compareSockAddr one other ∧
    ∀ third, ¬ Confused one other → ¬ Confused other third → compareSockAddr one other = true →
      compareSockAddr other third = true → compareSockAddr one third = true := by
  obtain ⟨name, names⟩ := exists_endpoint named
  refine ⟨⟨?_, ?_⟩, compareSockAddr_self named, compareSockAddr_comm other one, ?_⟩
  · intro decides confused
    exact confused.compare.1 (decides.mp confused.compare.2)
  · intro clear
    refine ⟨fun equal => endpoint_eq_of_compare equal clear, fun same => ?_⟩
    exact compareSockAddr_of_endpoint names (same ▸ names)
  · intro third clear clear' equal equal'
    have same := endpoint_eq_of_compare equal clear
    have same' := endpoint_eq_of_compare equal' clear'
    exact compareSockAddr_of_endpoint names (same' ▸ same ▸ names)

/-- `::ffff:32.1.13.184` and `2001:db8::1` at one port. -/
theorem mapped_equals_native :
    let mapped : SockAddr := .inet6 (In6Addr.ofV4 0x20010db8) 9001
    let native : SockAddr := .inet6 ⟨0x20010db8, 0, 0, 1⟩ 9001
    let plain : SockAddr := .inet 0x20010db8 9001
    ¬ (compareSockAddr mapped native = true ↔ mapped.endpoint = native.endpoint) ∧
      compareSockAddr plain mapped = true ∧ compareSockAddr mapped native = true ∧
      compareSockAddr plain native = false := by
  decide

/-- An IPv4 address and its IPv6 form. -/
theorem decides_endpoints_mapped :
    compareSockAddr (.inet 1 9001) (.inet6 (In6Addr.ofV4 1) 9001) = true :=
  ((@decides_endpoints_iff (.inet 1 9001) (.inet6 (In6Addr.ofV4 1) 9001)
    (by decide)).1.mpr (fun confused => confused)).mpr (by decide)

end TalusVSwitch
