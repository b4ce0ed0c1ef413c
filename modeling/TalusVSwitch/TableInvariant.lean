import TalusVSwitch.Ageing
import TalusVSwitch.VSwitch

/-! The MAC table over whole runs of a node, one critical section at a time: the
learning of decoded datagrams, lookups, ageing scans and deferred removals. -/

namespace TalusVSwitch

/-- A decoded datagram with the address it came from. -/
structure Arrival where
  buf : Buffer
  peer : SockAddr
  ttl : UInt8
deriving DecidableEq

/-- A node's table with its ageing tasks, and every datagram received so far. -/
structure Node where
  ageing : Ageing
  received : List Arrival

inductive NodeEvent where
  /-- A datagram through `setOnRead`, up to the learning section of its callback. -/
  | datagram (arrival : Arrival)
  /-- `getMacPeer`, as relaying, a TAP read or a peer list item calls it. -/
  | getMacPeer (mac : Mac)
  | checkMac (enumeration : Enumeration)
  | runTask (index : Nat)
  | elapse (milliseconds : Nat)

namespace Node

variable (config : Config)

def step (node : Node) : NodeEvent → Node
  | .datagram arrival =>
    { ageing :=
        { node.ageing with
          table := VSwitch.learnFrom config node.ageing.now arrival.buf arrival.peer arrival.ttl
            node.ageing.table }
      received := arrival :: node.received }
  | .getMacPeer mac =>
    { node with
      ageing :=
        { node.ageing with table := (node.ageing.table.getMacPeer node.ageing.now mac).2.2 } }
  | .checkMac enumeration => { node with ageing := node.ageing.step (.checkMac enumeration) }
  | .runTask index => { node with ageing := node.ageing.step (.runTask index) }
  | .elapse milliseconds => { node with ageing := node.ageing.step (.elapse milliseconds) }

/-- The node as `main` starts it: the table holds the uplink entry alone. -/
def start (now : Nat) : Node where
  ageing := ⟨(∅ : MacMap).addMacPeer now MAC_BROADCAST config.corePeer config.sendTtl, [], now⟩
  received := []

def table (node : Node) : MacMap := node.ageing.table

/-- What the table of a node holds at any time. -/
structure Invariant (node : Node) : Prop where
  uplink : ∃ peerInfo, node.table.lookup MAC_BROADCAST = some peerInfo ∧
    peerInfo.sock = config.corePeer
  local_absent : config.macLocal ∉ node.table
  low_bits : ∀ mac ∈ node.table, mac.toNat % 65536 = 0
  learned : ∀ mac peerInfo, mac ≠ MAC_BROADCAST → node.table.lookup mac = some peerInfo →
    ∃ arrival ∈ node.received, arrival.buf.isTvsCmd = false ∧ arrival.buf.sMac = mac ∧
      peerInfo.sock = arrival.peer ∧ peerInfo.ttl = arrival.ttl

variable {config} {node : Node}

theorem datagram_table (arrival : Arrival) :
    (step config node (.datagram arrival)).table =
      VSwitch.learnFrom config node.ageing.now arrival.buf arrival.peer arrival.ttl node.table := by
  simp only [step, table]

private theorem invariant_shrink (invariant : Invariant config node) {next : Node}
    (kept : ∀ mac peerInfo, next.table.lookup mac = some peerInfo →
      node.table.lookup mac = some peerInfo)
    (uplink : next.table.lookup MAC_BROADCAST = node.table.lookup MAC_BROADCAST)
    (history : node.received ⊆ next.received) : Invariant config next := by
  have member {mac : Mac} (present : mac ∈ next.table) : mac ∈ node.table := by
    obtain ⟨peerInfo, found⟩ := Option.isSome_iff_exists.mp (AList.lookup_isSome.mpr present)
    exact MacMap.mem_of_lookup (kept mac peerInfo found)
  refine ⟨uplink ▸ invariant.uplink, fun present => invariant.local_absent (member present),
    fun mac present => invariant.low_bits mac (member present), ?_⟩
  intro mac peerInfo other found
  obtain ⟨arrival, received, rest⟩ := invariant.learned mac peerInfo other (kept mac peerInfo found)
  exact ⟨arrival, history received, rest⟩

theorem invariant_datagram (invariant : Invariant config node) (arrival : Arrival) :
    Invariant config (step config node (.datagram arrival)) := by
  by_cases learns : VSwitch.Learns config arrival.buf
  · have whole : (step config node (.datagram arrival)).table =
        node.table.addMacPeer node.ageing.now arrival.buf.sMac arrival.peer arrival.ttl := by
      rw [datagram_table, VSwitch.learnFrom_of_learns learns]
    obtain ⟨_, data, source, foreign⟩ := learns
    refine ⟨?_, ?_, ?_, ?_⟩
    · rw [datagram_table, VSwitch.lookup_learnFrom_broadcast]
      exact invariant.uplink
    · rw [whole, MacMap.mem_addMacPeer, not_or]
      exact ⟨foreign.symm, invariant.local_absent⟩
    · intro mac present
      rw [whole, MacMap.mem_addMacPeer] at present
      rcases present with rfl | before
      · exact Buffer.load64_shift_low arrival.buf 6
      · exact invariant.low_bits mac before
    · intro mac peerInfo other found
      rw [datagram_table] at found
      rcases VSwitch.learnFrom_entry found with
        ⟨before, stored, sock, ttl⟩ | ⟨_, same, sock, ttl, _⟩
      · obtain ⟨first, received, command, key, address, hops⟩ :=
          invariant.learned mac before other stored
        exact ⟨first, List.mem_cons_of_mem _ received, command, key, sock.trans address,
          ttl.trans hops⟩
      · exact ⟨arrival, List.mem_cons_self .., data, same.symm, sock, ttl⟩
  · have kept : (step config node (.datagram arrival)).table = node.table := by
      rw [datagram_table, VSwitch.learnFrom_of_not_learns learns]
    exact invariant_shrink invariant (fun mac peerInfo found => by rwa [kept] at found) (by rw [kept])
      (List.subset_cons_self ..)

theorem invariant_getMacPeer (invariant : Invariant config node) (mac : Mac) :
    Invariant config (step config node (.getMacPeer mac)) := by
  obtain ⟨uplink, found, _⟩ := invariant.uplink
  have kept : (step config node (.getMacPeer mac)).table = node.table :=
    MacMap.getMacPeer_table (MacMap.mem_of_lookup found)
  exact invariant_shrink invariant (fun mac peerInfo stored => by rwa [kept] at stored)
    (by rw [kept]) (List.Subset.refl _)

theorem invariant_runTask (invariant : Invariant config node) (index : Nat) :
    Invariant config (step config node (.runTask index)) := by
  cases posted : node.ageing.tasks[index]? with
  | none =>
    have kept : (step config node (.runTask index)).table = node.table := by
      simp [step, table, Ageing.step, posted]
    exact invariant_shrink invariant (fun mac peerInfo stored => by rwa [kept] at stored)
      (by rw [kept]) (List.Subset.refl _)
  | some task =>
    have ran : (step config node (.runTask index)).table = node.table.runRemoval task := by
      simp [step, table, Ageing.step, posted]
    apply invariant_shrink invariant
    · intro mac peerInfo stored
      rw [ran] at stored
      exact MacMap.lookup_runRemoval stored
    · rw [ran]
      exact MacMap.lookup_runRemoval_broadcast
    · exact List.Subset.refl _

theorem invariant_step (node : Node) (event : NodeEvent) (invariant : Invariant config node) :
    Invariant config (step config node event) := by
  cases event with
  | datagram arrival => exact invariant_datagram invariant arrival
  | getMacPeer mac => exact invariant_getMacPeer invariant mac
  | checkMac enumeration => exact ⟨invariant.uplink, invariant.local_absent, invariant.low_bits,
      invariant.learned⟩
  | runTask index => exact invariant_runTask invariant index
  | elapse milliseconds => exact ⟨invariant.uplink, invariant.local_absent, invariant.low_bits,
      invariant.learned⟩

theorem invariant_start (distinct : config.macLocal ≠ MAC_BROADCAST) (now : Nat) :
    Invariant config (start config now) := by
  have only {mac : Mac} (present : mac ∈ (start config now).table) : mac = MAC_BROADCAST := by
    rcases MacMap.mem_addMacPeer.mp present with same | absent
    · exact same
    · exact absurd absent (AList.notMem_empty mac)
  refine ⟨⟨_, MacMap.lookup_addMacPeer_absent (AList.lookup_empty _), rfl⟩,
    fun present => distinct (only present), ?_, ?_⟩
  · intro mac present
    rw [only present]
    decide
  · intro mac peerInfo other found
    exact absurd (only (MacMap.mem_of_lookup found)) other

theorem ttl_le_step (node : Node) (event : NodeEvent) {mac : Mac} {before after : MacPeer}
    (found : node.table.lookup mac = some before)
    (stored : (step config node event).table.lookup mac = some after) : before.ttl ≤ after.ttl := by
  have unchanged (kept : (step config node event).table.lookup mac = node.table.lookup mac) :
      before.ttl ≤ after.ttl := by
    rw [kept, found, Option.some.injEq] at stored
    rw [stored]
    exact UInt8.le_refl _
  cases event with
  | datagram arrival =>
    rw [datagram_table] at stored
    rcases VSwitch.learnFrom_entry stored with ⟨kept, present, _, ttl⟩ | ⟨_, _, _, ttl, better⟩
    · rw [found, Option.some.injEq] at present
      rw [ttl, present]
      exact UInt8.le_refl _
    · rw [ttl]
      exact better before found
  | getMacPeer other =>
    exact unchanged ((MacMap.lookup_getMacPeer found).trans found.symm)
  | checkMac => exact unchanged rfl
  | runTask index =>
    apply unchanged
    cases posted : node.ageing.tasks[index]? with
    | none => simp only [step, table, Ageing.step, posted]
    | some task =>
      simp only [step, table, Ageing.step, posted] at stored ⊢
      exact stored.trans (MacMap.lookup_runRemoval stored).symm
  | elapse => exact unchanged rfl

/-- An entry that stays through a run never loses TTL on the way. -/
theorem ttl_le_run (events : List NodeEvent) (node : Node) {mac : Mac} {before after : MacPeer}
    (alive : ∀ first, first <+: events → mac ∈ (Execution.run (step config) node first).table)
    (found : node.table.lookup mac = some before)
    (stored : (Execution.run (step config) node events).table.lookup mac = some after) :
    before.ttl ≤ after.ttl := by
  induction events generalizing node before with
  | nil =>
    rw [Execution.run_nil, found, Option.some.injEq] at stored
    rw [stored]
    exact UInt8.le_refl _
  | cons event rest ih =>
    have present : mac ∈ (step config node event).table := alive [event] ⟨rest, rfl⟩
    obtain ⟨between, next⟩ := Option.isSome_iff_exists.mp (AList.lookup_isSome.mpr present)
    have later := ih (step config node event)
      (fun first earlier => alive (event :: first) (List.cons_prefix_cons.mpr ⟨rfl, earlier⟩))
      next stored
    exact UInt8.le_trans (ttl_le_step node event found next) later

theorem mem_received {arrival : Arrival} (events : List NodeEvent) (node : Node) :
    arrival ∈ (Execution.run (step config) node events).received ↔
      arrival ∈ node.received ∨ .datagram arrival ∈ events := by
  induction events generalizing node with
  | nil => simp
  | cons event rest ih =>
    rw [Execution.run_cons, ih]
    cases event <;> simp [step, or_assoc, or_left_comm]

/-- The receive lambda is a step of the node, then whatever other threads do before
its second section, which leaves the table alone. -/
theorem onPeerInput_table (enumeration : Enumeration) {arrival : Arrival} {received : Received}
    (called : (Transport.classify arrival.buf arrival.ttl).callback = some received)
    {interleaved : MacMap → MacMap} {events : List NodeEvent}
    (between : interleaved (step config node (.datagram arrival)).table =
      (Execution.run (step config) node (.datagram arrival :: events)).table)
    (invariant : Invariant config node) :
    (VSwitch.onPeerInput config enumeration node.ageing.now interleaved received arrival.peer
      node.table).table = (Execution.run (step config) node (.datagram arrival :: events)).table := by
  have learned : VSwitch.learn config node.ageing.now received arrival.peer node.table =
      (step config node (.datagram arrival)).table := by
    simp only [step, table, VSwitch.learnFrom, called]
  have after := Execution.run_invariant invariant_step invariant (.datagram arrival :: events)
  obtain ⟨uplink, found, _⟩ := after.uplink
  simp only [VSwitch.onPeerInput, learned, between]
  exact VSwitch.forward_kept.whole (MacMap.mem_of_lookup found)

theorem pollInterface_table (enumeration : Enumeration) (node : Node) {buf : Buffer}
    (nonempty : buf.size ≠ 0) :
    (VSwitch.pollInterface config enumeration node.ageing.now id buf node.table).1 =
      (step config node (.getMacPeer buf.dMac)).table := by
  rcases looked : node.ageing.table.getMacPeer node.ageing.now buf.dMac with ⟨peer, got, after⟩
  simp only [VSwitch.pollInterface, nonempty, if_false, table, step, looked]
  split_ifs <;> rfl

/-- From the table `main` builds on, over every run: the uplink entry stays at
`corePeer`, the local MAC is no key, keys are shifted MACs, every other entry comes
from one data frame received in the run, and stored TTLs never go down while
their entry lives. -/
theorem table_invariant (config : Config) (distinct : config.macLocal ≠ MAC_BROADCAST) (now : Nat)
    (events : List NodeEvent) :
    Invariant config (Execution.run (step config) (start config now) events) ∧
    (∀ arrival ∈ (Execution.run (step config) (start config now) events).received,
      .datagram arrival ∈ events) ∧
    ∀ first rest mac before after, events = first ++ rest →
      (∀ part, part <+: rest →
        mac ∈ (Execution.run (step config) (start config now) (first ++ part)).table) →
      (Execution.run (step config) (start config now) first).table.lookup mac = some before →
      (Execution.run (step config) (start config now) events).table.lookup mac = some after →
      before.ttl ≤ after.ttl := by
  refine ⟨?_, ?_, ?_⟩
  · exact Execution.run_invariant invariant_step (invariant_start distinct now) events
  · intro arrival present
    rcases (mem_received events _).mp present with initial | received
    · cases initial
    · exact received
  · rintro first rest mac before after rfl alive found stored
    rw [Execution.run_append] at stored
    refine ttl_le_run rest _ ?_ found stored
    intro part earlier
    rw [← Execution.run_append]
    exact alive part earlier

/-- A peer learned, found idle by a scan, and removed. -/
theorem table_invariant_idle_peer :
    let config : Config := { macLocal := 0x30000, sendTtl := 8, corePeer := .inet 1 9001 }
    let frame : Buffer := ⟨[255, 255, 255, 255, 255, 255, 2, 0, 0, 0, 0, 0, 8, 0], []⟩
    Invariant config (Execution.run (step config) (start config 0)
      [.datagram ⟨frame, .inet 2 9001, 8⟩, .elapse 30000, .checkMac .stored, .runTask 0,
        .runTask 0]) := by
  intro config frame
  exact (table_invariant config (by decide) 0 _).1

end Node

end TalusVSwitch
