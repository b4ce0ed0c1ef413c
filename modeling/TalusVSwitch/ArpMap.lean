import Mathlib.Data.List.AList
import TalusVSwitch.Library.Execution
import TalusVSwitch.MacText

namespace TalusVSwitch

abbrev ArpTable := AList (fun _ : UInt32 => Mac)

/-- The fields of an `ARPPacket` that `checkArp` reads, addresses as they lie in memory. -/
structure ARPPacket where
  operation : UInt16
  senderMAC : Bytes
  senderIP : UInt32
  targetMAC : Bytes
  targetIP : UInt32
deriving DecidableEq, Repr

/-- `htons` and `ntohs` -/
def ntohs (value : UInt16) : UInt16 := (value <<< 8) ||| (value >>> 8)

/-- So many bytes of a frame. -/
def bytesAt (frame : Bytes) (offset count : Nat) : Bytes := (frame.drop offset).take count

/-- The packet behind the Ethernet header, `#pragma pack(1)`. -/
def ARPPacket.ofFrame (frame : Bytes) : ARPPacket where
  operation := UInt16.ofNat (littleEndian (bytesAt frame 20 2))
  senderMAC := bytesAt frame 22 6
  senderIP := UInt32.ofNat (littleEndian (bytesAt frame 28 4))
  targetMAC := bytesAt frame 32 6
  targetIP := UInt32.ofNat (littleEndian (bytesAt frame 38 4))

/-- The ARP request or reply in a frame, if it holds one. -/
def arpPacket (frame : Bytes) : Option ARPPacket :=
  if frame.length < 14 + 28 then none
  else if ntohs (UInt16.ofNat (littleEndian (bytesAt frame 12 2))) != 0x0806 then none
  else
    let packet := ARPPacket.ofFrame frame
    let opcode := ntohs packet.operation
    if opcode != 1 && opcode != 2 then none else some packet

/-- The test `checkArp` makes of a pair before it stores one. -/
def storable (ip : UInt32) (mac : Mac) : Bool :=
  ip != 0 && mac != 0 && ip != 0xffffffff && mac != MAC_BROADCAST

/-- A pair that may be stored. -/
structure Binding where
  ip : UInt32
  mac : Mac
  valid : storable ip mac = true

namespace ArpMap

def addArp (table : ArpTable) (ip : UInt32) (mac : Mac) : ArpTable := table.insert ip mac

def delArp (table : ArpTable) (ip : UInt32) : ArpTable := table.erase ip

def delMac (table : ArpTable) (mac : Mac) : ArpTable :=
  ⟨table.entries.filter (fun entry => entry.2 != mac), table.nodupKeys.sublist List.filter_sublist⟩

/-- The task of `checkArp`. -/
def checkArp (table : ArpTable) (frame : Bytes) : ArpTable :=
  match arpPacket frame with
  | none => table
  | some packet =>
    let sendMac := macOfBytes packet.senderMAC
    let targetMAC := macOfBytes packet.targetMAC
    let table :=
      if storable packet.senderIP sendMac then addArp table packet.senderIP sendMac else table
    -- the sender's pair once more, where the target's is tested
    if storable packet.targetIP targetMAC then addArp table packet.senderIP sendMac else table

/-- A pair recorded if it may be stored. -/
def record (table : ArpTable) (ip : UInt32) (mac : Mac) : ArpTable :=
  if storable ip mac then table.insert ip mac else table

/-- What a frame should leave: the sender's pair recorded, then the target's. -/
def expected (table : ArpTable) (frame : Bytes) : ArpTable :=
  match arpPacket frame with
  | none => table
  | some packet =>
    record (record table packet.senderIP (macOfBytes packet.senderMAC)) packet.targetIP
      (macOfBytes packet.targetMAC)

end ArpMap

inductive ArpEvent where
  | checkArp (frame : Bytes)
  | addArp (binding : Binding)
  | delArp (ip : UInt32)
  | delMac (mac : Mac)

namespace ArpMap

def step (table : ArpTable) : ArpEvent → ArpTable
  | .checkArp frame => checkArp table frame
  | .addArp binding => addArp table binding.ip binding.mac
  | .delArp ip => delArp table ip
  | .delMac mac => delMac table mac

/-- Every pair in the table may be stored. -/
def Valid (table : ArpTable) : Prop :=
  ∀ ip mac, table.lookup ip = some mac → storable ip mac = true

/-- A frame leaves what it should. -/
def Records (table : ArpTable) : ArpEvent → Prop
  | .checkArp frame => ∀ ip, (checkArp table frame).lookup ip = (expected table frame).lookup ip
  | _ => True

/-- A packet whose target pair may be stored has a sender pair that may be, and the
target pair is that one or in the table already. -/
def NamesNoNewTarget (table : ArpTable) : ArpEvent → Prop
  | .checkArp frame => ∀ packet, arpPacket frame = some packet →
    storable packet.targetIP (macOfBytes packet.targetMAC) = true →
    storable packet.senderIP (macOfBytes packet.senderMAC) = true ∧
      (packet.targetIP = packet.senderIP ∧
          macOfBytes packet.targetMAC = macOfBytes packet.senderMAC ∨
        packet.targetIP ≠ packet.senderIP ∧
          table.lookup packet.targetIP = some (macOfBytes packet.targetMAC))
  | _ => True

variable {table : ArpTable}

theorem valid_addArp (valid : Valid table) {ip : UInt32} {mac : Mac}
    (pair : storable ip mac = true) : Valid (addArp table ip mac) := by
  intro other found stored
  by_cases same : other = ip
  · subst same
    rw [addArp, AList.lookup_insert, Option.some.injEq] at stored
    rwa [← stored]
  · rw [addArp, AList.lookup_insert_ne same] at stored
    exact valid other found stored

theorem lookup_delMac {ip : UInt32} {mac found : Mac}
    (stored : (delMac table mac).lookup ip = some found) : table.lookup ip = some found := by
  have member := AList.mem_lookup_iff.mp stored
  exact AList.mem_lookup_iff.mpr (List.mem_filter.mp member).1

theorem valid_step (table : ArpTable) (event : ArpEvent) (met : NamesNoNewTarget table event)
    (valid : Valid table) : Valid (step table event) := by
  cases event with
  | checkArp frame =>
    simp only [step, checkArp]
    cases parsed : arpPacket frame with
    | none => exact valid
    | some packet =>
      dsimp only
      by_cases sender : storable packet.senderIP (macOfBytes packet.senderMAC) = true
      · have once := valid_addArp valid sender
        rw [if_pos sender]
        split_ifs
        · exact valid_addArp once sender
        · exact once
      · have idle : storable packet.targetIP (macOfBytes packet.targetMAC) ≠ true :=
          fun target => sender (met packet parsed target).1
        rw [if_neg sender, if_neg idle]
        exact valid
  | addArp binding => exact valid_addArp valid binding.valid
  | delArp ip =>
    intro other found stored
    by_cases same : other = ip
    · subst same
      simp [step, delArp] at stored
    · simp only [step, delArp, AList.lookup_erase_ne same] at stored
      exact valid other found stored
  | delMac mac =>
    intro ip found stored
    exact valid ip found (lookup_delMac stored)

/-- Storing the sender's pair in place of a target pair goes unnoticed when the two are
one pair, or the table has the target pair. -/
theorem lookup_sender_twice {senderIP targetIP : UInt32} {sendMac targetMAC : Mac} :
    (∀ ip, (addArp (addArp table senderIP sendMac) senderIP sendMac).lookup ip =
        (addArp (addArp table senderIP sendMac) targetIP targetMAC).lookup ip) ↔
      (targetIP = senderIP ∧ targetMAC = sendMac ∨
        targetIP ≠ senderIP ∧ table.lookup targetIP = some targetMAC) := by
  by_cases same : targetIP = senderIP
  · subst same
    simp only [true_and, ne_eq, not_true_eq_false, false_and, or_false]
    constructor
    · intro agree
      have here := agree targetIP
      simp only [addArp, AList.lookup_insert, Option.some.injEq] at here
      exact here.symm
    · rintro rfl ip
      rfl
  · simp only [same, false_and, ne_eq, not_false_eq_true, true_and, false_or]
    constructor
    · intro agree
      have here := agree targetIP
      simp only [addArp, AList.lookup_insert, AList.lookup_insert_ne same] at here
      exact here
    · intro present ip
      by_cases target : ip = targetIP
      · subst target
        simp only [addArp, AList.lookup_insert, AList.lookup_insert_ne same, present]
      · by_cases sender : ip = senderIP
        · subst sender
          simp only [addArp, AList.lookup_insert, AList.lookup_insert_ne target]
        · simp only [addArp, AList.lookup_insert_ne sender, AList.lookup_insert_ne target]

theorem lookup_sender_shows (valid : Valid table) {senderIP targetIP : UInt32}
    {sendMac targetMAC : Mac} (target : storable targetIP targetMAC = true)
    (sender : storable senderIP sendMac ≠ true) :
    ¬ ∀ ip, (addArp table senderIP sendMac).lookup ip = (addArp table targetIP targetMAC).lookup ip := by
  intro agree
  have here := agree senderIP
  by_cases same : senderIP = targetIP
  · subst same
    simp only [addArp, AList.lookup_insert, Option.some.injEq] at here
    exact sender (here ▸ target)
  · simp only [addArp, AList.lookup_insert, AList.lookup_insert_ne same] at here
    exact sender (valid senderIP sendMac here.symm)

theorem records_step (valid : Valid table) (event : ArpEvent) :
    Records table event ↔ NamesNoNewTarget table event := by
  cases event with
  | checkArp frame =>
    cases parsed : arpPacket frame with
    | none => simp [Records, NamesNoNewTarget, checkArp, expected, parsed]
    | some packet =>
      simp only [Records, NamesNoNewTarget, checkArp, expected, record, parsed, Option.some.injEq,
        forall_eq']
      by_cases target : storable packet.targetIP (macOfBytes packet.targetMAC) = true
      · by_cases sender : storable packet.senderIP (macOfBytes packet.senderMAC) = true
        · simp only [target, sender, if_true, true_and, forall_true_left]
          exact lookup_sender_twice
        · simp only [target, sender, if_true, if_false, Bool.false_eq_true, false_and, forall_true_left,
            iff_false]
          exact lookup_sender_shows valid target sender
      · simp [target, addArp]
  | addArp binding => exact Iff.rfl
  | delArp ip => exact Iff.rfl
  | delMac mac => exact Iff.rfl

/-- From the empty table on, the table never holds a pair that may not be stored and
every frame leaves what it should exactly in the runs in which no frame names a new
target. -/
theorem records_iff (events : List ArpEvent) :
    ((∀ first, first <+: events → Valid (Execution.run step ∅ first)) ∧
      Execution.EveryStep step Records ∅ events) ↔
    Execution.EveryStep step NamesNoNewTarget ∅ events := by
  have empty : Valid ∅ := fun ip mac stored => by simp at stored
  constructor
  · rintro ⟨valid, records⟩
    apply Execution.EveryStep.iff_prefix.mpr
    intro first event earlier
    have before : first <+: events := (List.prefix_append first [event]).trans earlier
    exact (records_step (valid first before) event).mp
      (Execution.EveryStep.iff_prefix.mp records first event earlier)
  · intro met
    have valid {first : List ArpEvent} (earlier : first <+: events) :
        Valid (Execution.run step ∅ first) :=
      Execution.EveryStep.preserves valid_step empty (met.of_prefix earlier)
    refine ⟨fun first earlier => valid earlier, ?_⟩
    apply Execution.EveryStep.iff_prefix.mpr
    intro first event earlier
    have before : first <+: events := (List.prefix_append first [event]).trans earlier
    exact (records_step (valid before) event).mpr
      (Execution.EveryStep.iff_prefix.mp met first event earlier)

/-- A reply of 10.0.0.1 to 10.0.0.2: nothing is recorded for 10.0.0.2. -/
theorem target_not_recorded :
    let frame : Bytes := [2, 0, 0, 0, 0, 2, 2, 0, 0, 0, 0, 1, 8, 6, 0, 1, 8, 0, 6, 4, 0, 2,
      2, 0, 0, 0, 0, 1, 10, 0, 0, 1, 2, 0, 0, 0, 0, 2, 10, 0, 0, 2]
    ¬ ((∀ first, first <+: [.checkArp frame] → Valid (Execution.run step ∅ first)) ∧
      Execution.EveryStep step Records ∅ [.checkArp frame]) := by
  intro frame
  rintro ⟨_, records, _⟩
  exact absurd (records 0x0200000a) (by decide)

end ArpMap

end TalusVSwitch
