import TalusVSwitch.ArpMap

namespace TalusVSwitch

theorem load64_macOfBytes {mac : Bytes} (six : mac.length = 6) (front back behind : Bytes) :
    Buffer.load64 ⟨front ++ mac ++ back, behind⟩ front.length <<< 16 = macOfBytes mac := by
  apply UInt64.toNat_inj.mp
  rw [Buffer.load64_shift_toNat, macOfBytes_toNat six]
  congr 2
  apply List.ext_getElem
  · rw [List.length_map, List.length_range, six]
  · intro index _ below
    have inside : front.length + index < (front ++ mac ++ back).length := by
      simp only [List.length_append]
      omega
    rw [List.getElem_map, List.getElem_range, Buffer.byte_of_lt inside, List.getD_eq_getElem?_getD,
      List.append_assoc, List.getElem?_append_right (Nat.le_add_right ..), Nat.add_sub_cancel_left,
      List.getElem?_append_left below, List.getElem?_eq_getElem below, Option.getD_some]

theorem bytesAt_append {part : Bytes} {count : Nat} (length : part.length = count)
    (front back : Bytes) : bytesAt (front ++ part ++ back) front.length count = part := by
  rw [bytesAt, List.append_assoc, List.drop_left, ← length, List.take_left]

/-- The key of a MAC address is the same from every form: loaded from a frame, copied
from an ARP packet, parsed from any spelling. Its bytes are the address again, its text
reads back, and the two special keys are those of the two special addresses. -/
theorem mac_forms_agree {mac : Bytes} (six : mac.length = 6) :
    (∀ back behind, Buffer.dMac ⟨mac ++ back, behind⟩ = macOfBytes mac) ∧
    (∀ front back behind : Bytes, front.length = 6 →
      Buffer.sMac ⟨front ++ mac ++ back, behind⟩ = macOfBytes mac) ∧
    (∀ front back : Bytes, front.length = 22 →
      macOfBytes (ARPPacket.ofFrame (front ++ mac ++ back)).senderMAC = macOfBytes mac) ∧
    (∀ front back : Bytes, front.length = 32 →
      macOfBytes (ARPPacket.ofFrame (front ++ mac ++ back)).targetMAC = macOfBytes mac) ∧
    (∀ macAddress, Spells macAddress mac → macToUint64 macAddress = some (macOfBytes mac)) ∧
    macBytes (macOfBytes mac) = mac ∧
    (∀ key : Mac, key.toNat % 65536 = 0 → macToUint64 (uint64ToMacStr key) = some key) ∧
    (∀ key other : Mac, key.toNat % 65536 = 0 → other.toNat % 65536 = 0 →
      uint64ToMacStr key = uint64ToMacStr other → key = other) ∧
    (macOfBytes mac = MAC_BROADCAST ↔ mac = List.replicate 6 255) ∧
    (macOfBytes mac = 0 ↔ mac = List.replicate 6 0) := by
  have special (byte : UInt8) : macOfBytes mac = macOfBytes (List.replicate 6 byte) ↔
      mac = List.replicate 6 byte :=
    ⟨macOfBytes_injective six (List.length_replicate ..), fun same => by rw [same]⟩
  refine ⟨?_, ?_, ?_, ?_, fun macAddress => macToUint64_spells six, macBytes_macOfBytes six,
    fun key => macToUint64_uint64ToMacStr, ?_, ?_, ?_⟩
  · intro back behind
    exact load64_macOfBytes six [] back behind
  · intro front back behind before
    rw [Buffer.sMac, ← before]
    exact load64_macOfBytes six front back behind
  · intro front back before
    rw [ARPPacket.ofFrame, ← before, bytesAt_append six]
  · intro front back before
    rw [ARPPacket.ofFrame, ← before, bytesAt_append six]
  · intro key other low low' same
    have read := macToUint64_uint64ToMacStr low
    rw [same, macToUint64_uint64ToMacStr low', Option.some.injEq] at read
    exact read.symm
  · exact special 255
  · exact special 0

/-- One address in two of its forms. -/
theorem mac_forms_agree_vendor :
    Buffer.dMac ⟨[0, 12, 1, 10, 11, 12], []⟩ = macOfBytes [0, 12, 1, 10, 11, 12] :=
  (mac_forms_agree (show [0, 12, 1, 10, 11, 12].length = 6 from rfl)).1 [] []

end TalusVSwitch
