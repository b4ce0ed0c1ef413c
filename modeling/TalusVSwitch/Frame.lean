import Mathlib.Data.List.Basic

/-! Ethernet frames in memory: the 8-byte loads that read a MAC address and the
test for the command prefix. The host is little-endian. -/

namespace TalusVSwitch

abbrev Bytes := List UInt8

/-- A MAC address as a table key: its six bytes above sixteen zero bits. -/
abbrev Mac := UInt64

def MAC_BROADCAST : Mac := (0xFFFFFFFFFFFFFFFF : UInt64) <<< 16

/-- ASCII text as bytes. -/
def text (string : String) : Bytes := string.toList.map (fun char => UInt8.ofNat char.toNat)

def TVS_CMD_PREFIX : Bytes := text "TVS_"

/-- A `BufferLikeString`: its bytes, and what lies in memory behind the NUL that
`std::string` keeps after them. -/
structure Buffer where
  bytes : Bytes
  behind : Bytes := []
deriving DecidableEq, Repr

/-- The number a run of bytes holds, least significant first. -/
def littleEndian : Bytes → Nat
  | [] => 0
  | byte :: rest => byte.toNat + 256 * littleEndian rest

namespace Buffer

def size (buf : Buffer) : Nat := buf.bytes.length

/-- `buf->data()[index]`, wherever the index points. -/
def byte (buf : Buffer) (index : Nat) : UInt8 :=
  (buf.bytes ++ 0 :: buf.behind).getD index 0

/-- `*(uint64_t*)(buf->data() + offset)` -/
def load64 (buf : Buffer) (offset : Nat) : UInt64 :=
  UInt64.ofNat (littleEndian ((List.range 8).map (fun index => buf.byte (offset + index))))

def dMac (buf : Buffer) : Mac := buf.load64 0 <<< 16

def sMac (buf : Buffer) : Mac := buf.load64 6 <<< 16

/-- `strncmp(buf->data() + offset, text, strlen(text)) == 0` -/
def startsWith (buf : Buffer) (offset : Nat) : Bytes → Bool
  | [] => true
  | char :: rest => buf.byte offset == char && buf.startsWith (offset + 1) rest

def isTvsCmd (buf : Buffer) : Bool := buf.startsWith 12 TVS_CMD_PREFIX

theorem byte_of_lt {buf : Buffer} {index : Nat} (inside : index < buf.size) :
    buf.byte index = buf.bytes.getD index 0 := by
  simp only [size] at inside
  simp [byte, List.getD_eq_getElem?_getD, List.getElem?_append_left inside]

theorem byte_size (buf : Buffer) : buf.byte buf.size = 0 := by
  simp [byte, size, List.getD_eq_getElem?_getD]

/-- Up to the NUL, memory is determined by the bytes. -/
theorem byte_congr {bytes behind behind' : Bytes} {index : Nat} (inside : index ≤ bytes.length) :
    byte ⟨bytes, behind⟩ index = byte ⟨bytes, behind'⟩ index := by
  rcases Nat.lt_or_eq_of_le inside with below | atEnd
  · rw [byte_of_lt (by simpa [size] using below), byte_of_lt (by simpa [size] using below)]
  · subst atEnd
    exact (byte_size ⟨bytes, behind⟩).trans (byte_size ⟨bytes, behind'⟩).symm

/-- The shift drops the two bytes that an 8-byte load reads past the address. -/
theorem load64_shift_toNat (buf : Buffer) (offset : Nat) :
    (buf.load64 offset <<< 16).toNat =
      65536 * littleEndian ((List.range 6).map (fun index => buf.byte (offset + index))) := by
  have bound (index : Nat) : (buf.byte (offset + index)).toNat < 256 := (buf.byte _).toNat_lt
  have b0 := bound 0
  have b1 := bound 1
  have b2 := bound 2
  have b3 := bound 3
  have b4 := bound 4
  have b5 := bound 5
  have b6 := bound 6
  have b7 := bound 7
  simp only [load64, List.range, List.range.loop, List.map_cons, List.map_nil, littleEndian,
    UInt64.toNat_shiftLeft, UInt64.toNat_ofNat', UInt64.toNat_ofNat, Nat.shiftLeft_eq,
    Nat.reduceMod, Nat.reducePow]
  omega

theorem load64_shift_congr {one other : Buffer} {offset : Nat}
    (same : ∀ index < 6, one.byte (offset + index) = other.byte (offset + index)) :
    one.load64 offset <<< 16 = other.load64 offset <<< 16 := by
  apply UInt64.toNat_inj.mp
  rw [load64_shift_toNat, load64_shift_toNat]
  congr 2
  apply List.map_congr_left
  intro index member
  exact same index (List.mem_range.mp member)

theorem load64_shift_low (buf : Buffer) (offset : Nat) :
    (buf.load64 offset <<< 16).toNat % 65536 = 0 := by
  rw [load64_shift_toNat]
  exact Nat.mul_mod_right _ _

theorem dMac_congr {bytes behind behind' : Bytes} (header : 12 ≤ bytes.length) :
    dMac ⟨bytes, behind⟩ = dMac ⟨bytes, behind'⟩ :=
  load64_shift_congr (fun index below => byte_congr (by omega))

theorem sMac_congr {bytes behind behind' : Bytes} (header : 12 ≤ bytes.length) :
    sMac ⟨bytes, behind⟩ = sMac ⟨bytes, behind'⟩ :=
  load64_shift_congr (fun index below => byte_congr (by omega))

end Buffer

theorem littleEndian_eq_zero {bytes : Bytes} :
    littleEndian bytes = 0 ↔ ∀ byte ∈ bytes, byte = 0 := by
  induction bytes with
  | nil => simp [littleEndian]
  | cons byte rest ih =>
    have zero : byte.toNat = 0 ↔ byte = 0 := by
      rw [← UInt8.toNat_inj]
      rfl
    rw [List.forall_mem_cons, ← ih, ← zero, littleEndian]
    omega

theorem Buffer.dMac_eq_zero {buf : Buffer} :
    buf.dMac = 0 ↔ ∀ index < 6, buf.byte index = 0 := by
  rw [← UInt64.toNat_inj, Buffer.dMac, Buffer.load64_shift_toNat]
  have shifted (value : Nat) : 65536 * value = 0 ↔ value = 0 := by omega
  simp [shifted, littleEndian_eq_zero]

theorem Buffer.dMac_ne_zero_iff {bytes behind : Bytes} (inside : 6 ≤ bytes.length) :
    Buffer.dMac ⟨bytes, behind⟩ ≠ 0 ↔ ∃ byte ∈ bytes.take 6, byte ≠ 0 := by
  rw [Ne, Buffer.dMac_eq_zero]
  constructor
  · intro nonzero
    by_contra zero
    apply nonzero
    intro index below
    have within : index < bytes.length := by omega
    rw [Buffer.byte_of_lt within]
    by_contra other
    apply zero
    refine ⟨bytes.getD index 0, ?_, other⟩
    rw [List.getD_eq_getElem?_getD, List.getElem?_eq_getElem within, Option.getD_some]
    exact List.mem_take_iff_getElem.mpr ⟨index, by omega, rfl⟩
  · rintro ⟨byte, member, nonzero⟩ zero
    obtain ⟨index, below, rfl⟩ := List.mem_take_iff_getElem.mp member
    have within : index < bytes.length := by omega
    have read := zero index (by omega)
    rw [Buffer.byte_of_lt within, List.getD_eq_getElem?_getD, List.getElem?_eq_getElem within] at read
    exact nonzero read

theorem Buffer.startsWith_congr {bytes behind behind' : Bytes} {offset : Nat} {pattern : Bytes}
    (inside : offset ≤ bytes.length) (noNul : 0 ∉ pattern) :
    Buffer.startsWith ⟨bytes, behind⟩ offset pattern =
      Buffer.startsWith ⟨bytes, behind'⟩ offset pattern := by
  induction pattern generalizing offset with
  | nil => rfl
  | cons char rest ih =>
    simp only [Buffer.startsWith, @Buffer.byte_congr bytes behind behind' offset inside]
    rcases Nat.lt_or_eq_of_le inside with below | atEnd
    · rw [ih below (fun member => noNul (List.mem_cons_of_mem _ member))]
    · have nul : Buffer.byte ⟨bytes, behind'⟩ offset = 0 := by
        subst atEnd
        exact Buffer.byte_size ⟨bytes, behind'⟩
      have stops : (0 == char) = false := by
        apply beq_eq_false_iff_ne.mpr
        rintro rfl
        exact noNul (List.mem_cons_self ..)
      simp [nul, stops]

theorem Buffer.isTvsCmd_congr {bytes behind behind' : Bytes} (header : 12 ≤ bytes.length) :
    Buffer.isTvsCmd ⟨bytes, behind⟩ = Buffer.isTvsCmd ⟨bytes, behind'⟩ :=
  Buffer.startsWith_congr header (by decide)

end TalusVSwitch
