import TalusVSwitch.VSwitch

namespace TalusVSwitch

/-- A use of a buffer: an index into one of the given size, or the null buffer. -/
inductive Access where
  | index (size position : Nat)
  | null
deriving DecidableEq, Repr

def Access.InBounds : Access → Prop
  | .index size position => position < size
  | .null => False

@[simp] theorem Access.inBounds_index {size position : Nat} :
    (Access.index size position).InBounds ↔ position < size := Iff.rfl

@[simp] theorem Access.not_inBounds_null : ¬ Access.null.InBounds := id

instance (access : Access) : Decidable access.InBounds := by
  cases access <;> unfold Access.InBounds <;> infer_instance

namespace ReceiveBounds

/-- `*(uint64_t*)(buf->data() + offset)` -/
def load64Accesses (buf : Buffer) (offset : Nat) : List Access :=
  (List.range 8).map (fun index => .index buf.size (offset + index))

/-- The bytes `strncmp` compares, up to the first that differs. -/
def startsWithAccesses (buf : Buffer) (offset : Nat) : Bytes → List Access
  | [] => []
  | char :: rest =>
    .index buf.size offset ::
      if buf.byte offset == char then startsWithAccesses buf (offset + 1) rest else []

/-- The bytes a write to the TAP or a `compress` goes through. -/
def wholeAccesses (buf : Buffer) : List Access :=
  (List.range buf.size).map (fun index => .index buf.size index)

/-- `checkArp`, which reads nothing from a frame too short for an ARP packet. -/
def checkArpAccesses (buf : Buffer) : List Access :=
  if buf.size < 14 + 28 then []
  else (List.range 30).map (fun index => .index buf.size (12 + index))

variable (zlib : Zlib) (config : Config) (enumeration : Enumeration) (now : Nat)
  (interleaved : MacMap → MacMap)

/-- The first and the last byte `setOnRead` takes the TTL from. On an empty datagram
the last index wraps around to that of `size_t`. -/
def ttlAccesses (datagram : Bytes) : List Access :=
  [.index datagram.length 0,
    .index datagram.length (if datagram.length = 0 then UInt64.size - 1 else datagram.length - 1)]

/-- The two header bytes `decompress` writes into any nonempty datagram. -/
def restoreHeaderAccesses (datagram : Bytes) : List Access :=
  if datagram.length = 0 then []
  else [.index datagram.length 0, .index datagram.length 1]

/-- The receive lambda, with what it sends on and writes to the TAP. -/
def onPeerInputAccesses (received : Received) (pktRecvPeer : SockAddr) (table : MacMap) :
    List Access :=
  let reaction := VSwitch.onPeerInput config enumeration now interleaved received pktRecvPeer table
  let broadcasts := received.buf.dMac != config.macLocal && received.ttl != 0 &&
    12 < received.buf.size && received.buf.dMac == MAC_BROADCAST
  load64Accesses received.buf 6 ++ load64Accesses received.buf 0 ++ checkArpAccesses received.buf ++
    reaction.tap.flatMap (fun _ => wholeAccesses received.buf) ++
    (if broadcasts then load64Accesses received.buf 6 ++ load64Accesses received.buf 0 else []) ++
    reaction.sends.flatMap (fun _ => wholeAccesses received.buf)

/-- The callback on a decompressed frame. -/
def frameAccesses (dd : Buffer) (pktRecvPeer : SockAddr) (ttl : UInt8) (table : MacMap) :
    List Access :=
  load64Accesses dd 0 ++ startsWithAccesses dd 12 TVS_CMD_PREFIX ++
    match (Transport.classify dd ttl).callback with
    | none => []
    | some received =>
      onPeerInputAccesses config enumeration now interleaved received pktRecvPeer table

/-- The callback `setOnRead` installs, from the datagram on. Where `decompress` returns
nothing, the next thing used is what it returned. -/
def receiveAccesses (behind : Bytes) (pktRecvPeer : SockAddr) (table : MacMap) (datagram : Bytes) :
    List Access :=
  ttlAccesses datagram ++ restoreHeaderAccesses datagram ++
    match decompress zlib datagram with
    | none => [.null]
    | some dd => frameAccesses config enumeration now interleaved ⟨dd, behind⟩ pktRecvPeer
        (Transport.wireTtl datagram) table

/-- A frame that ends inside the command prefix it would have to be compared with. -/
def CutInPrefix (frame : Bytes) : Prop :=
  frame.drop 12 <+: TVS_CMD_PREFIX ∧ frame.drop 12 ≠ TVS_CMD_PREFIX

/-- What a frame must be like to be received without an access outside it. -/
structure Readable (frame : Bytes) : Prop where
  prefix_decided : ¬ CutInPrefix frame
  addresses : (∃ byte ∈ frame.take 6, byte ≠ 0) → 14 ≤ frame.length

variable {zlib config enumeration now interleaved}

theorem load64_inBounds {buf : Buffer} {offset : Nat} :
    (∀ access ∈ load64Accesses buf offset, access.InBounds) ↔ offset + 8 ≤ buf.size := by
  simp only [load64Accesses, List.mem_map, List.mem_range, forall_exists_index, and_imp,
    forall_apply_eq_imp_iff₂, Access.inBounds_index]
  constructor
  · intro every
    have last := every 7 (by decide)
    omega
  · intro inside index below
    omega

theorem whole_inBounds (buf : Buffer) : ∀ access ∈ wholeAccesses buf, access.InBounds := by
  intro access member
  obtain ⟨index, below, rfl⟩ := List.mem_map.mp member
  exact List.mem_range.mp below

theorem checkArp_inBounds (buf : Buffer) : ∀ access ∈ checkArpAccesses buf, access.InBounds := by
  intro access member
  unfold checkArpAccesses at member
  split at member
  · cases member
  · obtain ⟨index, below, rfl⟩ := List.mem_map.mp member
    rw [List.mem_range] at below
    rw [Access.inBounds_index]
    omega

theorem ttl_inBounds {datagram : Bytes} :
    (∀ access ∈ ttlAccesses datagram, access.InBounds) ↔ datagram ≠ [] := by
  cases datagram with
  | nil => simp [ttlAccesses]
  | cons first rest => simp [ttlAccesses]

theorem restoreHeader_inBounds {datagram : Bytes} (nonempty : datagram ≠ []) :
    (∀ access ∈ restoreHeaderAccesses datagram, access.InBounds) ↔ 2 ≤ datagram.length := by
  have positive := List.length_pos_iff.mpr nonempty
  simp only [restoreHeaderAccesses, Nat.ne_of_gt positive, if_false, List.mem_cons,
    List.not_mem_nil, or_false, forall_eq_or_imp, forall_eq, Access.inBounds_index]
  omega

/-- The prefix test stays inside unless the frame ends within a match. -/
theorem startsWith_inBounds {bytes behind : Bytes} (offset : Nat) (pattern : Bytes) :
    (∀ access ∈ startsWithAccesses ⟨bytes, behind⟩ offset pattern, access.InBounds) ↔
      ¬ (bytes.drop offset <+: pattern ∧ bytes.drop offset ≠ pattern) := by
  induction pattern generalizing offset with
  | nil => simp [startsWithAccesses]
  | cons char rest ih =>
    rcases Nat.lt_or_ge offset bytes.length with below | beyond
    · have byte : Buffer.byte ⟨bytes, behind⟩ offset = bytes[offset] := by
        rw [Buffer.byte_of_lt below]
        simp [List.getD_eq_getElem?_getD, List.getElem?_eq_getElem below]
      rw [List.drop_eq_getElem_cons below]
      simp only [startsWithAccesses, byte, List.forall_mem_cons, Access.inBounds_index, Buffer.size, below,
        true_and, beq_iff_eq]
      by_cases same : bytes[offset] = char
      · rw [if_pos same, same, ih, List.cons_prefix_cons]
        simp
      · simp only [same, if_false, List.not_mem_nil, false_implies, implies_true, true_iff]
        exact fun cut => same (List.cons_prefix_cons.mp cut.1).1
    · have outside : ¬ offset < bytes.length := Nat.not_lt.mpr beyond
      simp [startsWithAccesses, List.drop_eq_nil_of_le beyond, Buffer.size, outside]

theorem header_of_decided {frame : Bytes} (decided : ¬ CutInPrefix frame) : 12 < frame.length := by
  by_contra short
  apply decided
  rw [CutInPrefix, List.drop_eq_nil_of_le (Nat.not_lt.mp short)]
  exact ⟨List.nil_prefix, by decide⟩

/-- The receive lambda needs all of the word it reads the source address with. -/
theorem onPeerInput_inBounds {received : Received} {pktRecvPeer : SockAddr} {table : MacMap} :
    (∀ access ∈ onPeerInputAccesses config enumeration now interleaved received pktRecvPeer table,
      access.InBounds) ↔ 14 ≤ received.buf.size := by
  constructor
  · intro every
    apply load64_inBounds.mp
    intro access member
    apply every
    simp [onPeerInputAccesses, member]
  · intro long access member
    have source := (@load64_inBounds received.buf 6).mpr long
    have destination := (@load64_inBounds received.buf 0).mpr (Nat.le_trans (by decide) long)
    simp only [onPeerInputAccesses, List.mem_append, List.mem_flatMap] at member
    rcases member with ((((first | second) | arp) | ⟨_, _, written⟩) | fanned) | ⟨_, _, sent⟩
    · exact source access first
    · exact destination access second
    · exact checkArp_inBounds _ access arp
    · exact whole_inBounds _ access written
    · split at fanned
      · rcases List.mem_append.mp fanned with first | second
        · exact source access first
        · exact destination access second
      · cases fanned
    · exact whole_inBounds _ access sent

theorem frame_inBounds {frame behind : Bytes} {pktRecvPeer : SockAddr} {ttl : UInt8}
    {table : MacMap} :
    (∀ access ∈ frameAccesses config enumeration now interleaved ⟨frame, behind⟩ pktRecvPeer ttl
      table, access.InBounds) ↔ Readable frame := by
  simp only [frameAccesses, List.forall_mem_append, load64_inBounds, startsWith_inBounds]
  constructor
  · rintro ⟨⟨_, decided⟩, called⟩
    refine ⟨decided, ?_⟩
    intro addressed
    have header := header_of_decided decided
    have destination := (@Buffer.dMac_ne_zero_iff frame behind (by omega)).mpr addressed
    simp only [Transport.classify, destination, if_false] at called
    exact onPeerInput_inBounds.mp called
  · intro readable
    have header := header_of_decided readable.prefix_decided
    refine ⟨⟨?_, readable.prefix_decided⟩, ?_⟩
    · simp only [Buffer.size]
      omega
    · by_cases addressed : Buffer.dMac ⟨frame, behind⟩ = 0
      · simp [Transport.classify, addressed]
      · simp only [Transport.classify, addressed, if_false]
        apply onPeerInput_inBounds.mpr
        exact readable.addresses ((Buffer.dMac_ne_zero_iff (by omega)).mp addressed)

/-- A frame read without an access outside it is handled the same whatever lies in
memory behind it. -/
theorem frame_ignores_behind {frame behind : Bytes} {pktRecvPeer : SockAddr} {ttl : UInt8}
    {table : MacMap}
    (inside : ∀ access ∈ frameAccesses config enumeration now interleaved ⟨frame, behind⟩
      pktRecvPeer ttl table, access.InBounds) (behind' : Bytes) :
    VSwitch.onDatagram config enumeration now interleaved ⟨frame, behind⟩ pktRecvPeer ttl table =
      VSwitch.onDatagram config enumeration now interleaved ⟨frame, behind'⟩ pktRecvPeer ttl table :=
  VSwitch.onDatagram_congr
    (Nat.le_of_lt (header_of_decided (frame_inBounds.mp inside).prefix_decided))

/-- Whatever the node's state and the memory behind its buffers, a datagram is received
without an access outside them exactly if it has two bytes, zlib makes a usable
stream of it, and that stream holds a readable frame. -/
theorem receive_in_bounds_iff (zlib : Zlib) (config : Config) (enumeration : Enumeration) (now : Nat)
    (interleaved : MacMap → MacMap) (behind : Bytes) (pktRecvPeer : SockAddr) (table : MacMap)
    (datagram : Bytes) :
    (∀ access ∈ receiveAccesses zlib config enumeration now interleaved behind pktRecvPeer table
      datagram, access.InBounds) ↔
      2 ≤ datagram.length ∧
      (zlib.inflate (restoreHeader datagram)).Usable (restoreHeader datagram) ∧
      Readable (zlib.inflate (restoreHeader datagram)).output := by
  simp only [receiveAccesses, List.forall_mem_append, ttl_inBounds]
  cases inflated : decompress zlib datagram with
  | none =>
    simp only [List.mem_singleton, forall_eq, Access.not_inBounds_null, and_false, false_iff]
    rintro ⟨_, usable, _⟩
    have returned := decompress_eq_some_iff.mpr ⟨usable, rfl⟩
    rw [inflated] at returned
    cases returned
  | some dd =>
    obtain ⟨usable, same⟩ := decompress_eq_some_iff.mp inflated
    rw [frame_inBounds, same]
    constructor
    · rintro ⟨⟨nonempty, header⟩, readable⟩
      exact ⟨(restoreHeader_inBounds nonempty).mp header, usable, readable⟩
    · rintro ⟨long, _, readable⟩
      have nonempty : datagram ≠ [] := by
        rintro rfl
        cases long
      exact ⟨⟨nonempty, (restoreHeader_inBounds nonempty).mpr long⟩, readable⟩

/-- An ordinary keep-alive, twelve bytes of addresses and nothing else: the load of its
source address reads two bytes behind it. -/
theorem keep_alive_overread :
    let keepAlive : Bytes := [255, 255, 255, 255, 255, 255, 2, 0, 0, 0, 0, 1]
    let datagram : Bytes := [254, 5, 251, 255, 31, 4, 152, 24, 128, 128, 17, 0, 56, 224, 5, 254]
    let zlib : Zlib := ⟨fun _ => ⟨true, restoreHeader datagram⟩, fun _ => ⟨true, keepAlive, .streamEnd⟩⟩
    let config : Config := { macLocal := 0x30000, sendTtl := 8, corePeer := .inet 1 9001 }
    ¬ ∀ access ∈ receiveAccesses zlib config .stored 0 id [] (.inet 2 9001) ∅ datagram,
      access.InBounds := by
  intro keepAlive datagram zlib config every
  have decoded : decompress zlib datagram = some keepAlive :=
    decompress_eq_some_iff.mpr ⟨⟨rfl, trivial⟩, rfl⟩
  have overread := every (.index 12 13) (by
    simp only [receiveAccesses, decoded]
    exact List.mem_append_right _ (by decide +kernel))
  exact absurd overread (by decide)

end ReceiveBounds

end TalusVSwitch
