import TalusVSwitch.Compression

namespace TalusVSwitch

/-- What the callback handed to `setOnRead` is called with. -/
structure Received where
  buf : Buffer
  ttl : UInt8
  isTvsCmd : Bool
deriving DecidableEq

/-- What one decoded datagram sets off: the call of the callback, unless the
destination is zero, and the command handler, if it is a command. -/
structure Reception where
  callback : Option Received
  command : Option Buffer
deriving DecidableEq

namespace Transport

/-- The two header bytes `send` writes over a compressed payload. -/
def stamp (cd : Bytes) (ttl : UInt8) : Bytes :=
  let cd := cd.set 0 (ttl ^^^ cd.getD (cd.length - 1) 0)
  cd.set 1 (cd.getD (cd.length - 2) 0)

/-- `send`, up to the socket. No datagram is made of the null buffer a failed
`compress` returns: the process dies. -/
def send (zlib : Zlib) (buf : Bytes) (ttl : UInt8) : Option Bytes :=
  (compress zlib buf).map (fun cd => stamp cd ttl)

/-- The TTL `setOnRead` recovers before it decompresses. -/
def wireTtl (datagram : Bytes) : UInt8 :=
  datagram.getD 0 0 ^^^ datagram.getD (datagram.length - 1) 0

/-- The part of the `setOnRead` callback behind `decompress`. -/
def classify (dd : Buffer) (ttl : UInt8) : Reception where
  callback := if dd.dMac = 0 then none else some ⟨dd, ttl, dd.isTvsCmd⟩
  command := if dd.isTvsCmd then some dd else none

/-- The callback `setOnRead` installs on the socket, for a decompressed buffer that
has `behind` in memory after it. `none` is the null dereference after a failed
`decompress`. -/
def setOnRead (zlib : Zlib) (behind : Bytes) (datagram : Bytes) : Option Reception :=
  (decompress zlib datagram).map (fun dd => classify ⟨dd, behind⟩ (wireTtl datagram))

/-- A relay that sends what its callback was given with the TTL less one. -/
def relay (zlib : Zlib) (behind : Bytes) (datagram : Bytes) : Option Bytes := do
  let received ← (← setOnRead zlib behind datagram).callback
  send zlib received.buf.bytes (received.ttl - 1)

/-- A datagram through one relay after another, each with its own memory. -/
def relays (zlib : Zlib) : List Bytes → Bytes → Option Bytes
  | [], datagram => some datagram
  | behind :: rest, datagram => do relays zlib rest (← relay zlib behind datagram)

end Transport

/-- What zlib documents about a payload at level 9: the stream header, the room
its trailer takes, and that inflating gives the payload back. -/
structure Zlib.Documented (zlib : Zlib) (payload : Bytes) : Prop where
  ready : (zlib.deflate payload).ready = true
  header : (zlib.deflate payload).output.take 2 = [0x78, 0xda]
  length : 8 ≤ (zlib.deflate payload).output.length
  inverse : zlib.inflate (zlib.deflate payload).output = ⟨true, payload, .streamEnd⟩

namespace Transport

theorem documented_output {zlib : Zlib} {payload : Bytes}
    (documented : zlib.Documented payload) :
    ∃ rest : Bytes, (zlib.deflate payload).output = 0x78 :: 0xda :: rest ∧ 6 ≤ rest.length := by
  have header := documented.header
  have length := documented.length
  match shape : (zlib.deflate payload).output with
  | [] => simp [shape] at length
  | [_] => simp [shape] at length
  | first :: second :: rest =>
    rw [shape] at header length
    simp only [List.take_succ_cons, List.take_zero, List.cons.injEq, and_true] at header
    refine ⟨rest, by rw [header.1, header.2], ?_⟩
    simp only [List.length_cons] at length
    omega

theorem restoreHeader_output {zlib : Zlib} {payload : Bytes}
    (documented : zlib.Documented payload) :
    restoreHeader (zlib.deflate payload).output = (zlib.deflate payload).output := by
  obtain ⟨rest, shape, -⟩ := documented_output documented
  rw [shape]
  rfl

theorem stamp_cons (first second : UInt8) (rest : Bytes) (ttl : UInt8) :
    ∃ check, stamp (first :: second :: rest) ttl =
      (ttl ^^^ (first :: second :: rest).getD (rest.length + 1) 0) :: check :: rest :=
  ⟨_, rfl⟩

theorem wireTtl_stamp (first second : UInt8) {rest : Bytes} (long : rest ≠ []) (ttl : UInt8) :
    wireTtl (stamp (first :: second :: rest) ttl) = ttl := by
  obtain ⟨check, shape⟩ := stamp_cons first second rest ttl
  obtain ⟨head, tail, rfl⟩ := List.exists_cons_of_ne_nil long
  rw [shape]
  change ttl ^^^ (head :: tail).getD tail.length 0 ^^^ (head :: tail).getD tail.length 0 = ttl
  rw [UInt8.xor_assoc, UInt8.xor_self, UInt8.xor_zero]

theorem restoreHeader_stamp (rest : Bytes) (ttl : UInt8) :
    restoreHeader (stamp (0x78 :: 0xda :: rest) ttl) = 0x78 :: 0xda :: rest := by
  obtain ⟨check, shape⟩ := stamp_cons 0x78 0xda rest ttl
  rw [shape]
  rfl

/-- A receiver decodes exactly the payload and the TTL that were sent. -/
theorem setOnRead_send {zlib : Zlib} {payload : Bytes} (documented : zlib.Documented payload)
    (ttl : UInt8) (behind : Bytes) :
    (send zlib payload ttl).bind (setOnRead zlib behind) =
      some (classify ⟨payload, behind⟩ ttl) := by
  obtain ⟨rest, shape, long⟩ := documented_output documented
  have nonempty : rest ≠ [] := by
    rintro rfl
    simp at long
  have inflated : decompress zlib (stamp (0x78 :: 0xda :: rest) ttl) = some payload := by
    rw [decompress_eq_some_iff, restoreHeader_stamp, ← shape, documented.inverse]
    exact ⟨⟨rfl, trivial⟩, rfl⟩
  simp only [send, compress_eq zlib payload documented.ready, shape, Option.map_some,
    Option.bind_some, setOnRead, inflated, wireTtl_stamp _ _ nonempty]

theorem classify_addressed {payload behind : Bytes} (long : 12 < payload.length)
    (addressed : ∃ byte ∈ payload.take 6, byte ≠ 0) (ttl : UInt8) :
    (classify ⟨payload, behind⟩ ttl).callback =
      some ⟨⟨payload, behind⟩, ttl, Buffer.isTvsCmd ⟨payload, []⟩⟩ := by
  have destination : Buffer.dMac ⟨payload, behind⟩ ≠ 0 :=
    (Buffer.dMac_ne_zero_iff (by omega)).mpr addressed
  simp only [classify, destination, if_false]
  rw [Buffer.isTvsCmd_congr (by omega)]

/-- One relay amounts to sending the payload with the TTL less one. -/
theorem relay_send {zlib : Zlib} {payload : Bytes} (documented : zlib.Documented payload)
    (long : 12 < payload.length) (addressed : ∃ byte ∈ payload.take 6, byte ≠ 0)
    (ttl : UInt8) (behind : Bytes) :
    (send zlib payload ttl).bind (relay zlib behind) = send zlib payload (ttl - 1) := by
  have decoded := setOnRead_send documented ttl behind
  obtain ⟨wire, sent, received⟩ := Option.bind_eq_some_iff.mp decoded
  simp [sent, relay, received, classify_addressed long addressed]

theorem relays_send {zlib : Zlib} {payload : Bytes} (documented : zlib.Documented payload)
    (long : 12 < payload.length) (addressed : ∃ byte ∈ payload.take 6, byte ≠ 0)
    (memories : List Bytes) {ttl : UInt8} (hops : memories.length ≤ ttl.toNat) :
    (send zlib payload ttl).bind (relays zlib memories) =
      send zlib payload (UInt8.ofNat (ttl.toNat - memories.length)) := by
  induction memories generalizing ttl with
  | nil => simp [relays]
  | cons behind rest ih =>
    have spent : (ttl - 1).toNat = ttl.toNat - 1 := by
      apply UInt8.toNat_sub_of_le
      rw [UInt8.le_iff_toNat_le]
      simp only [List.length_cons] at hops
      exact Nat.le_trans (Nat.succ_le_succ (Nat.zero_le _)) hops
    have step : (send zlib payload ttl).bind (relays zlib (behind :: rest)) =
        ((send zlib payload ttl).bind (relay zlib behind)).bind (relays zlib rest) := by
      rw [Option.bind_assoc]
      rfl
    rw [step, relay_send documented long addressed, ih (by simp at hops; omega), spent,
      Nat.sub_sub, Nat.add_comm 1, List.length_cons]

/-- A frame passes through any chain of relays its TTL allows unchanged: the next
receiver's callback gets its bytes, the TTL less the hops, and its own verdict on
the command prefix. The rewritten header costs nothing on the way. -/
theorem wire_transparent {zlib : Zlib} {payload : Bytes} (documented : zlib.Documented payload)
    (long : 12 < payload.length) (addressed : ∃ byte ∈ payload.take 6, byte ≠ 0)
    {ttl : UInt8} {memories : List Bytes} (hops : memories.length ≤ ttl.toNat) (behind : Bytes) :
    (∃ reception,
      ((send zlib payload ttl).bind (relays zlib memories)).bind (setOnRead zlib behind) =
        some reception ∧
      reception.callback = some ⟨⟨payload, behind⟩, UInt8.ofNat (ttl.toNat - memories.length),
        Buffer.isTvsCmd ⟨payload, []⟩⟩) ∧
    restoreHeader (stamp (zlib.deflate payload).output ttl) = (zlib.deflate payload).output ∧
    wireTtl (stamp (zlib.deflate payload).output ttl) = ttl := by
  refine ⟨?_, ?_, ?_⟩
  · rw [relays_send documented long addressed memories hops, setOnRead_send documented]
    exact ⟨_, rfl, classify_addressed long addressed _⟩
  · obtain ⟨rest, shape, _⟩ := documented_output documented
    rw [shape, restoreHeader_stamp]
  · obtain ⟨rest, shape, room⟩ := documented_output documented
    rw [shape, wireTtl_stamp]
    rintro rfl
    simp at room

/-- An ARP header broadcast with TTL 8, and the stream zlib makes of it at level 9. -/
theorem wire_transparent_arp :
    let payload : Bytes := [255, 255, 255, 255, 255, 255, 2, 0, 0, 0, 0, 1, 8, 6, 0, 1]
    let stream : Bytes := [120, 218, 251, 255, 31, 4, 152, 24, 128, 128, 145, 131, 141, 129, 17, 0,
      81, 11, 6, 13]
    let zlib : Zlib := ⟨fun _ => ⟨true, stream⟩, fun _ => ⟨true, payload, .streamEnd⟩⟩
    ∃ reception,
      ((send zlib payload 8).bind (relays zlib [[], []])).bind (setOnRead zlib []) =
        some reception ∧
      reception.callback = some ⟨⟨payload, []⟩, 6, false⟩ := by
  intro payload stream zlib
  exact (@wire_transparent zlib payload ⟨rfl, rfl, by decide, rfl⟩ (by decide) (by decide) 8
    [[], []] (by decide) []).1

end Transport

end TalusVSwitch
