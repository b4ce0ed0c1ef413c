import TalusVSwitch.Flight

/-! Broadcast in a star: a core without an uplink, and leaves whose uplink it is.
The one copy a leaf injects goes to the core, whose copies go to the leaves and stop
there. -/

namespace TalusVSwitch

universe u

inductive StarNode (Leaf : Type u) where
  | core
  | leaf (index : Leaf)
deriving DecidableEq

/-- A core and its leaves, with the forms of the address each is reached at, such as an IPv4
address and its IPv6 form. The comparison takes those of one leaf for the same, and tells
those of two leaves apart. -/
structure Star (Leaf : Type u) where
  config : StarNode Leaf → Config
  addresses : StarNode Leaf → List SockAddr
  port : ∀ node, ∀ addr ∈ addresses node, addr.inet_port ≠ 0
  one_leaf : ∀ leaf, ∀ addr ∈ addresses (.leaf leaf), ∀ form ∈ addresses (.leaf leaf),
    compareSockAddr addr form = true
  leaves_apart : ∀ one other, one ≠ other → ∀ addr ∈ addresses (.leaf one),
    ∀ form ∈ addresses (.leaf other), compareSockAddr addr form = false
  core_apart : ∀ leaf, ∀ addr ∈ addresses .core, addr ∉ addresses (.leaf leaf)
  macs_apart : ∀ one other, one ≠ other → (config one).macLocal ≠ (config other).macLocal
  core_mac : (config .core).macLocal ≠ MAC_BROADCAST

namespace Star

variable {Leaf : Type u} (star : Star Leaf) (injector : StarNode Leaf)

/-- The core's table when it fans the frame out: its broadcast entry has no port, every
other leaf's address is there, and nothing but leaf addresses has a port. -/
structure Complete (table : MacMap) : Prop where
  placeholder : ∃ uplink, table.lookup MAC_BROADCAST = some uplink ∧ uplink.sock.inet_port = 0
  present : ∀ leaf, .leaf leaf ≠ injector →
    ∃ entry ∈ table.entries, entry.2.sock ∈ star.addresses (.leaf leaf)
  only : ∀ entry ∈ table.entries,
    (∃ leaf, entry.2.sock ∈ star.addresses (.leaf leaf)) ∨ entry.2.sock.inet_port = 0

/-- What a handler finds: at a leaf the core as uplink, at the core no uplink and, when
it fans out, a complete table. -/
def Finds (visit : Visit (StarNode Leaf)) : Prop :=
  match visit.node with
  | .leaf _ => ∃ uplink, visit.table.lookup MAC_BROADCAST = some uplink ∧
      uplink.sock ∈ star.addresses .core
  | .core => (∃ uplink, visit.table.lookup MAC_BROADCAST = some uplink ∧
      uplink.sock.inet_port = 0) ∧ star.Complete injector visit.later

/-- The network takes each copy to the node it is addressed to, loses only what is
addressed to port 0, and shows the core a leaf's datagrams under an address of the leaf's;
what a leaf sees them come from is left open. -/
def Delivers (flight : Flight (StarNode Leaf)) : FlightEvent (StarNode Leaf) → Prop
  | .deliver index visit => ∀ copy, flight.inflight[index]? = some copy →
      copy.send.addr.inet_port ≠ 0 → copy.send.addr ∈ star.addresses visit.node ∧
        (visit.node = .core → visit.pktRecvPeer ∈ star.addresses copy.sender) ∧
        star.Finds injector visit
  | .lose index => ∀ copy, flight.inflight[index]? = some copy → copy.send.addr.inet_port = 0

/-- A data frame broadcast by its injector, with a hop to spend. -/
structure BroadcastFrame (frame : Bytes) : Prop where
  long : 12 < frame.length
  data : Buffer.isTvsCmd ⟨frame, []⟩ = false
  destination : Buffer.dMac ⟨frame, []⟩ = MAC_BROADCAST
  source : Buffer.sMac ⟨frame, []⟩ = (star.config injector).macLocal
  live : 1 ≤ (star.config injector).sendTtl

variable {star} {injector}

theorem BroadcastFrame.dMac {frame : Bytes} (broadcast : star.BroadcastFrame injector frame)
    (behind : Bytes) : Buffer.dMac ⟨frame, behind⟩ = MAC_BROADCAST :=
  (Buffer.dMac_congr (Nat.le_of_lt broadcast.long)).trans broadcast.destination

theorem node_unique {addr : SockAddr} {one other : StarNode Leaf}
    (first : addr ∈ star.addresses one) (second : addr ∈ star.addresses other) : one = other := by
  cases one with
  | core =>
    cases other with
    | core => rfl
    | leaf index => exact absurd second (star.core_apart index addr first)
  | leaf index =>
    cases other with
    | core => exact absurd first (star.core_apart index addr second)
    | leaf other =>
      by_contra different
      have apart := star.leaves_apart index other (fun equal => different (by rw [equal])) addr first
        addr second
      rw [star.one_leaf index addr first addr first] at apart
      cases apart

theorem compare_injector (leaf : injector ≠ .core) {source : SockAddr}
    (from_injector : source ∈ star.addresses injector) {other : Leaf} {addr : SockAddr}
    (named : addr ∈ star.addresses (.leaf other)) :
    compareSockAddr source addr = true ↔ .leaf other = injector := by
  cases injector with
  | core => exact absurd rfl leaf
  | leaf index =>
    constructor
    · intro equal
      by_contra different
      rw [star.leaves_apart index other (fun same => different (by rw [same])) source from_injector
        addr named] at equal
      cases equal
    · rintro ⟨⟩
      exact star.one_leaf other source from_injector addr named

/-- The copies in flight to a node. -/
def bound (star : Star Leaf) (node : StarNode Leaf) (sends : List Send) : Nat :=
  sends.countP (fun send => send.addr ∈ star.addresses node)

/-- Only the core's broadcast entry is at no leaf. -/
theorem mac_of_leaf_address {table : MacMap} (complete : star.Complete injector table)
    {entry : MacEntry} (member : entry ∈ table.entries) {leaf : Leaf}
    (address : entry.2.sock ∈ star.addresses (.leaf leaf)) : entry.1 ≠ MAC_BROADCAST := by
  intro broadcast
  obtain ⟨uplink, found, noPort⟩ := complete.placeholder
  have stored : table.lookup entry.1 = some entry.2 := AList.mem_lookup_iff.mpr member
  rw [broadcast, found, Option.some.injEq] at stored
  rw [stored] at noPort
  exact star.port _ _ address noPort

theorem react_tap {visit : Visit (StarNode Leaf)} {send : Send}
    (frame : star.BroadcastFrame injector send.buf) (other : visit.node ≠ injector) :
    (Flight.react star.config visit send).tap = [send.buf] := by
  have header : 12 ≤ send.buf.length := Nat.le_of_lt frame.long
  have destination := frame.dMac visit.behind
  have source : Buffer.sMac ⟨send.buf, visit.behind⟩ = (star.config injector).macLocal := by
    rw [Buffer.sMac_congr header, frame.source]
  have data : Buffer.isTvsCmd ⟨send.buf, visit.behind⟩ = false := by
    rw [Buffer.isTvsCmd_congr header, frame.data]
  have foreign := star.macs_apart injector visit.node (Ne.symm other)
  have addressed : MAC_BROADCAST ≠ 0 := by decide
  have long : 12 < (Buffer.mk send.buf visit.behind).size := frame.long
  rw [Flight.react, VSwitch.onDatagram_tap, if_pos]
  refine ⟨by rwa [destination], ?_⟩
  simp [VSwitch.writesTap, data, destination, source, foreign, long]

theorem react_spent {visit : Visit (StarNode Leaf)} {send : Send} (spent : send.ttl = 0) :
    (Flight.react star.config visit send).sends = [] := by
  rcases VSwitch.onDatagram_cases (star.config visit.node) visit.enumeration visit.now
      (fun _ => visit.later) ⟨send.buf, visit.behind⟩ visit.pktRecvPeer send.ttl visit.table with
    nothing | ⟨_, live, _⟩
  · exact nothing
  · exact absurd spent live

theorem bound_perm {first second : List Send} (perm : first.Perm second) (node : StarNode Leaf) :
    star.bound node first = star.bound node second :=
  perm.countP_eq _

theorem bound_cons (node : StarNode Leaf) (send : Send) (rest : List Send) :
    star.bound node (send :: rest) =
      star.bound node rest + if send.addr ∈ star.addresses node then 1 else 0 := by
  simp [bound, List.countP_cons]

theorem bound_unsendable {send : Send} (noPort : send.addr.inet_port = 0) (node : StarNode Leaf)
    (rest : List Send) : star.bound node (send :: rest) = star.bound node rest := by
  rw [bound_cons, if_neg (fun named => star.port node _ named noPort), Nat.add_zero]

/-- At first the one copy a leaf injected is on its way to the core. -/
structure Underway (star : Star Leaf) (injector : StarNode Leaf) (frame : Bytes)
    (flight : Flight (StarNode Leaf)) : Prop where
  leaf : injector ≠ .core
  copy : ∃ addr ∈ star.addresses .core,
    flight.inflight = [⟨injector, ⟨frame, addr, (star.config injector).sendTtl⟩⟩]
  taps : flight.taps = []

theorem Underway.carries {frame : Bytes} {flight : Flight (StarNode Leaf)}
    (underway : star.Underway injector frame flight) : flight.Carries frame := by
  intro send member
  obtain ⟨addr, _, alone⟩ := underway.copy
  rw [Flight.sends, alone, List.map_singleton, List.mem_singleton] at member
  rw [member]

theorem delivers_of {flight : Flight (StarNode Leaf)} {index : Nat}
    {visit : Visit (StarNode Leaf)} {sender : StarNode Leaf} {send : Send}
    (picked : flight.inflight[index]?.map (fun copy => (copy.sender, copy.send)) = some (sender, send))
    (address : send.addr ∈ star.addresses visit.node)
    (source : visit.node = .core → visit.pktRecvPeer ∈ star.addresses sender)
    (finds : star.Finds injector visit) : star.Delivers injector flight (.deliver index visit) := by
  intro copy found _
  rw [found, Option.map_some, Option.some.injEq, Prod.mk.injEq] at picked
  obtain ⟨rfl, rfl⟩ := picked
  exact ⟨address, source, finds⟩

variable [DecidableEq Leaf]

/-- What the core sends: one copy without hops to every leaf but the injector, and
nothing else that is delivered. -/
structure FannedOut (star : Star Leaf) (injector : StarNode Leaf) (sends : List Send) : Prop where
  once : ∀ leaf, star.bound (.leaf leaf) sends = if .leaf leaf = injector then 0 else 1
  toCore : star.bound .core sends = 0
  reach : ∀ send ∈ sends, send.addr.inet_port = 0 ∨
    (send.ttl = 0 ∧ ∃ leaf, send.addr ∈ star.addresses (.leaf leaf))

theorem sendBroadcast_fannedOut {visit : Visit (StarNode Leaf)} {frame : Buffer}
    {pktRecvPeer : SockAddr} {ttl : UInt8} (complete : star.Complete injector visit.later)
    (source : ∀ leaf, ∀ addr ∈ star.addresses (.leaf leaf),
      compareSockAddr pktRecvPeer addr = true ↔ .leaf leaf = injector) :
    FannedOut star injector
      (sendBroadcast (visit.enumeration.order visit.later) frame pktRecvPeer ttl) := by
  have entries {entry : MacEntry} :
      entry ∈ visit.enumeration.order visit.later ↔ entry ∈ visit.later.entries :=
    (visit.enumeration.perm visit.later).mem_iff
  refine ⟨?_, ?_, ?_⟩
  · intro leaf
    split
    · rename_i own
      exact sendBroadcast_count_source (fun addr named => (source leaf addr named).mpr own)
    · rename_i other
      apply sendBroadcast_count_other (star.one_leaf leaf)
      · exact fun addr named =>
          Bool.eq_false_iff.mpr (fun same => other ((source leaf addr named).mp same))
      · intro entry member addr named equal
        rcases complete.only entry (entries.mp member) with ⟨owner, address⟩ | noPort
        · by_cases same : owner = leaf
          · rwa [← same]
          · rw [star.leaves_apart leaf owner (Ne.symm same) addr named _ address] at equal
            cases equal
        · rw [← inet_port_eq_of_compare equal] at noPort
          exact absurd noPort (star.port _ _ named)
      · obtain ⟨entry, member, address⟩ := complete.present leaf other
        exact ⟨entry, entries.mpr member, address⟩
  · apply List.countP_eq_zero.mpr
    intro send sent named
    have toCore : send.addr ∈ star.addresses .core := of_decide_eq_true named
    obtain ⟨entry, member, _, rfl⟩ := mem_sendBroadcast sent
    rcases complete.only entry (entries.mp member) with ⟨leaf, address⟩ | noPort
    · exact star.core_apart leaf _ toCore address
    · exact star.port .core _ toCore noPort
  · intro send sent
    obtain ⟨entry, member, _, rfl⟩ := mem_sendBroadcast sent
    rcases complete.only entry (entries.mp member) with ⟨leaf, address⟩ | noPort
    · have other := mac_of_leaf_address complete (entries.mp member) address
      exact .inr ⟨by simp [copyTo, broadcastTtl, other], leaf, address⟩
    · exact .inl noPort

/-- Once the core has fanned the frame out: every node but the injector has written it
or has one copy on the way. -/
structure Spread (star : Star Leaf) (injector : StarNode Leaf) (frame : Bytes)
    (flight : Flight (StarNode Leaf)) : Prop where
  carries : flight.Carries frame
  reach : ∀ send ∈ flight.sends, send.addr.inet_port = 0 ∨
    (send.ttl = 0 ∧ ∃ leaf, send.addr ∈ star.addresses (.leaf leaf))
  once : ∀ node, flight.taps.count (node, frame) + star.bound node flight.sends =
    if node = injector then 0 else 1

/-- The two phases of a broadcast. -/
def Phase (star : Star Leaf) (injector : StarNode Leaf) (frame : Bytes)
    (flight : Flight (StarNode Leaf)) : Prop :=
  star.Underway injector frame flight ∨ star.Spread injector frame flight

/-- The core's fan-out, and no copy besides, leaves one copy for every node but the
injector and the core itself. -/
theorem bound_of_fannedOut {sends : List Send} (fanned : FannedOut star injector sends)
    (node : StarNode Leaf) :
    star.bound node sends = if node = .core ∨ node = injector then 0 else 1 := by
  cases node with
  | core => simpa using fanned.toCore
  | leaf index => simpa using fanned.once index

theorem inject_phase {frame : Bytes} (broadcast : star.BroadcastFrame injector frame)
    {visit : Visit (StarNode Leaf)} (here : visit.node = injector)
    (finds : star.Finds injector visit) :
    star.Phase injector frame (Flight.inject star.config frame visit) := by
  have destination := broadcast.dMac visit.behind
  have nonempty : (Buffer.mk frame visit.behind).size ≠ 0 := by
    have long := broadcast.long
    simp only [Buffer.size]
    omega
  cases node : visit.node with
  | leaf index =>
    left
    simp only [Finds, node] at finds
    obtain ⟨uplink, found, address⟩ := finds
    have looked : visit.table.getMacPeer visit.now (Buffer.dMac ⟨frame, visit.behind⟩) =
        (uplink.sock, true, visit.table) := by
      rw [destination]
      exact MacMap.getMacPeer_found found
    have port := star.port .core _ address
    refine ⟨?_, ⟨_, address, ?_⟩, rfl⟩
    · rw [← here, node]
      rintro ⟨⟩
    · simp only [Flight.inject]
      rw [VSwitch.pollInterface_of_port nonempty (by rwa [looked])]
      simp only [looked, List.map_cons, List.map_nil, here]
  | core =>
    right
    simp only [Finds, node] at finds
    obtain ⟨⟨uplink, found, noPort⟩, complete⟩ := finds
    have looked : visit.table.getMacPeer visit.now (Buffer.dMac ⟨frame, visit.behind⟩) =
        (uplink.sock, true, visit.table) := by
      rw [destination]
      exact MacMap.getMacPeer_found found
    have emitted : (Flight.inject star.config frame visit).sends =
        sendBroadcast (visit.enumeration.order visit.later) ⟨frame, visit.behind⟩ .unspec
          (star.config visit.node).sendTtl := by
      rw [Flight.inject_sends, VSwitch.pollInterface_broadcast nonempty (by rwa [looked]) destination]
    have fanned : FannedOut star injector (Flight.inject star.config frame visit).sends := by
      rw [emitted]
      apply sendBroadcast_fannedOut complete
      intro leaf addr _
      rw [← here, node]
      simp
    refine ⟨Flight.inject_carries frame visit, fanned.reach, ?_⟩
    intro other
    have bound := bound_of_fannedOut fanned other
    rw [← here, node] at bound ⊢
    simpa [Flight.inject] using bound

theorem core_fannedOut {frame : Bytes} (broadcast : star.BroadcastFrame injector frame)
    (leaf : injector ≠ .core) {visit : Visit (StarNode Leaf)} (node : visit.node = .core)
    (source : visit.pktRecvPeer ∈ star.addresses injector)
    (complete : star.Complete injector visit.later) (addr : SockAddr) :
    FannedOut star injector (Flight.react star.config visit
      ⟨frame, addr, (star.config injector).sendTtl⟩).sends := by
  have destination := broadcast.dMac visit.behind
  have live := ttl_ne_zero broadcast.live
  have foreign : (star.config visit.node).macLocal ≠ MAC_BROADCAST := by
    rw [node]
    exact star.core_mac
  rw [Flight.react, VSwitch.onDatagram_broadcast destination foreign live broadcast.long]
  exact sendBroadcast_fannedOut complete (fun _ _ named => compare_injector leaf source named)

theorem underway_step {frame : Bytes} (broadcast : star.BroadcastFrame injector frame)
    {flight : Flight (StarNode Leaf)} (underway : star.Underway injector frame flight)
    (event : FlightEvent (StarNode Leaf)) (delivers : star.Delivers injector flight event) :
    star.Phase injector frame (Flight.step star.config flight event) := by
  obtain ⟨addr, toCore, inflight⟩ := underway.copy
  have alone {index : Nat} {copy : Copy (StarNode Leaf)}
      (picked : flight.inflight[index]? = some copy) :
      copy = ⟨injector, ⟨frame, addr, (star.config injector).sendTtl⟩⟩ := by
    have member := List.mem_of_getElem? picked
    rwa [inflight, List.mem_singleton] at member
  cases event with
  | lose index =>
    rcases Flight.lose_cases star.config flight index with same | ⟨copy, rest, picked, _, _⟩
    · rw [same]
      exact .inl underway
    · have noPort := delivers copy picked
      rw [alone picked] at noPort
      exact absurd noPort (star.port .core _ toCore)
  | deliver index visit =>
    have carried := @Flight.carries_step _ star.config _ flight (.deliver index visit)
      underway.carries
    rcases Flight.deliver_cases star.config flight index visit with
      same | ⟨copy, rest, picked, port, _, split, after⟩
    · rw [same]
      exact .inl underway
    right
    obtain ⟨address, source, finds⟩ := delivers copy picked port
    rw [alone picked] at address source after
    have node : visit.node = .core := node_unique address toCore
    have finish : rest = [] := by
      have one := split.length_eq
      rw [inflight, List.length_singleton, List.length_cons] at one
      exact List.eq_nil_of_length_eq_zero (by omega)
    simp only [Finds, node] at finds
    have fanned := core_fannedOut broadcast underway.leaf node (source node) finds.2 addr
    have written := @react_tap _ star injector visit ⟨frame, addr, (star.config injector).sendTtl⟩
      broadcast (by rw [node]; exact underway.leaf.symm)
    have left : (Flight.step star.config flight (.deliver index visit)).sends =
        (Flight.react star.config visit ⟨frame, addr, (star.config injector).sendTtl⟩).sends := by
      rw [after, finish, Flight.sends, List.nil_append, Flight.send_of_copies]
    have taps : (Flight.step star.config flight (.deliver index visit)).taps =
        [(.core, frame)] := by
      rw [after, underway.taps, written, node, List.nil_append]
      rfl
    refine ⟨carried, ?_, ?_⟩
    · rw [left]
      exact fanned.reach
    · intro other
      rw [left, taps, bound_of_fannedOut fanned]
      have elsewhere := underway.leaf.symm
      by_cases core : other = .core
      · simp [core, elsewhere]
      · simp [core, Ne.symm core]

/-- A copy reaches its leaf, which writes it and sends nothing on. -/
theorem spread_step {frame : Bytes} (broadcast : star.BroadcastFrame injector frame)
    {flight : Flight (StarNode Leaf)} (spread : star.Spread injector frame flight)
    (event : FlightEvent (StarNode Leaf)) (delivers : star.Delivers injector flight event) :
    star.Spread injector frame (Flight.step star.config flight event) := by
  have carried := @Flight.carries_step _ star.config _ flight event spread.carries
  cases event with
  | lose index =>
    rcases Flight.lose_cases star.config flight index with same | ⟨copy, rest, picked, split, after⟩
    · rwa [same]
    · have perm : flight.sends.Perm (copy.send :: rest.map Copy.send) := split.map Copy.send
      refine ⟨carried, ?_, ?_⟩
      · intro send member
        rw [after] at member
        exact spread.reach send (perm.symm.subset (List.mem_cons_of_mem _ member))
      · intro node
        have once := spread.once node
        rw [bound_perm perm, bound_unsendable (delivers copy picked)] at once
        rw [after]
        exact once
  | deliver index visit =>
    rcases Flight.deliver_cases star.config flight index visit with
      same | ⟨copy, rest, picked, port, _, split, after⟩
    · rwa [same]
    have perm : flight.sends.Perm (copy.send :: rest.map Copy.send) := split.map Copy.send
    obtain ⟨address, _, _⟩ := delivers copy picked port
    have member := Flight.mem_of_picked picked
    have bytes := spread.carries _ member
    rcases spread.reach _ member with noPort | ⟨spent, _⟩
    · exact absurd noPort port
    have other : visit.node ≠ injector := by
      intro same
      have once := spread.once visit.node
      rw [bound_perm perm, bound_cons, if_pos address, if_pos same] at once
      omega
    have left : (Flight.step star.config flight (.deliver index visit)).sends =
        rest.map Copy.send := by
      rw [after, Flight.sends, List.map_append, react_spent spent]
      exact List.append_nil _
    have written := @react_tap _ star injector visit copy.send (by rwa [bytes]) other
    have taps : (Flight.step star.config flight (.deliver index visit)).taps =
        flight.taps ++ [(visit.node, frame)] := by
      rw [after, written, bytes]
      rfl
    refine ⟨carried, ?_, ?_⟩
    · intro send remaining
      rw [left] at remaining
      exact spread.reach send (perm.symm.subset (List.mem_cons_of_mem _ remaining))
    · intro node
      have once := spread.once node
      rw [bound_perm perm, bound_cons] at once
      rw [left, taps, List.count_append, List.count_singleton]
      by_cases same : visit.node = node
      · rw [if_pos (by rwa [← same])] at once
        rw [if_pos (by simp [same])]
        omega
      · rw [if_neg (fun reached => same (node_unique address reached))] at once
        rw [if_neg (by simp [same])]
        omega

theorem phase_step {frame : Bytes} (broadcast : star.BroadcastFrame injector frame)
    (flight : Flight (StarNode Leaf)) (event : FlightEvent (StarNode Leaf))
    (delivers : star.Delivers injector flight event) (phase : star.Phase injector frame flight) :
    star.Phase injector frame (Flight.step star.config flight event) := by
  rcases phase with underway | spread
  · exact underway_step broadcast underway event delivers
  · exact .inr (spread_step broadcast spread event delivers)

/-- A broadcast injected at any node of a star: over every run, in whatever order the
core enumerates its table and the network delivers, the injector never writes the
frame, no other node writes it twice, every copy with a port can be delivered, and
once they all are, every other node has written it exactly once. -/
theorem broadcast_exactly_once (star : Star Leaf) {frame : Bytes}
    (broadcast : star.BroadcastFrame injector frame) {visit : Visit (StarNode Leaf)}
    (here : visit.node = injector) (finds : star.Finds injector visit)
    {events : List (FlightEvent (StarNode Leaf))}
    (delivers : Execution.EveryStep (Flight.step star.config) (star.Delivers injector)
      (Flight.inject star.config frame visit) events) :
    let flight := Execution.run (Flight.step star.config)
      (Flight.inject star.config frame visit) events
    flight.taps.count (injector, frame) = 0 ∧
    (∀ node, node ≠ injector → flight.taps.count (node, frame) ≤ 1) ∧
    (∀ send ∈ flight.sends, send.addr.inet_port ≠ 0 → ∃ node, send.addr ∈ star.addresses node) ∧
    ((∀ send ∈ flight.sends, send.addr.inet_port = 0) →
      ∀ node, node ≠ injector → flight.taps.count (node, frame) = 1) := by
  intro flight
  have phase : star.Phase injector frame flight :=
    Execution.EveryStep.preserves (phase_step broadcast) (inject_phase broadcast here finds) delivers
  rcases phase with underway | spread
  · obtain ⟨addr, toCore, inflight⟩ := underway.copy
    rw [underway.taps, Flight.sends, inflight, List.map_singleton]
    refine ⟨rfl, fun _ _ => Nat.zero_le 1, ?_, ?_⟩
    · intro send member _
      rw [List.mem_singleton] at member
      exact ⟨.core, by rwa [member]⟩
    · intro quiet
      exact absurd (quiet _ (List.mem_singleton.mpr rfl)) (star.port .core _ toCore)
  · refine ⟨?_, ?_, ?_, ?_⟩
    · have once := spread.once injector
      rw [if_pos rfl] at once
      omega
    · intro node other
      have once := spread.once node
      rw [if_neg other] at once
      omega
    · intro send member port
      rcases spread.reach send member with noPort | ⟨_, leaf, address⟩
      · exact absurd noPort port
      · exact ⟨.leaf leaf, address⟩
    · intro quiet node other
      have once := spread.once node
      have none : star.bound node flight.sends = 0 := by
        apply List.countP_eq_zero.mpr
        intro send member named
        exact star.port node _ (of_decide_eq_true named) (quiet send member)
      rw [if_neg other, none] at once
      exact once

/-- A core on a dual-stack socket, which sees its two leaves' IPv4 addresses in their IPv6
form. -/
def twoLeaves : Star Bool where
  config
    | .core => ⟨0x10000, 8, .unspec, []⟩
    | .leaf true => ⟨0x20000, 8, .inet 1 9001, []⟩
    | .leaf false => ⟨0x30000, 8, .inet 1 9001, []⟩
  addresses
    | .core => [.inet 1 9001]
    | .leaf true => [.inet 2 9001, .inet6 (.ofV4 2) 9001]
    | .leaf false => [.inet 3 9001, .inet6 (.ofV4 3) 9001]
  port node := by rcases node with _ | _ | _ <;> decide
  one_leaf leaf := by cases leaf <;> decide
  leaves_apart one other different := by
    cases one <;> cases other <;> first | exact absurd rfl different | decide
  core_apart leaf := by cases leaf <;> decide
  macs_apart one other different := by
    rcases one with _ | _ | _ <;> rcases other with _ | _ | _ <;>
      first | exact absurd rfl different | decide
  core_mac := by decide

/-- A table of the two-leaf star, once both leaves have sent something. -/
def twoLeavesTable (node : StarNode Bool) : MacMap :=
  (((∅ : MacMap).addMacPeer 0 MAC_BROADCAST (if node = .core then .unspec else .inet 1 9001)
    8).addMacPeer 0 0x20000 (.inet6 (.ofV4 2) 9001) 8).addMacPeer 0 0x30000
      (.inet6 (.ofV4 3) 9001) 8

def twoLeavesVisit (node : StarNode Bool) (pktRecvPeer : SockAddr) : Visit (StarNode Bool) where
  node := node
  table := twoLeavesTable node
  later := twoLeavesTable node
  pktRecvPeer := pktRecvPeer

theorem twoLeaves_finds (node : StarNode Bool) (pktRecvPeer : SockAddr) :
    twoLeaves.Finds (.leaf true) (twoLeavesVisit node pktRecvPeer) := by
  have placeholder : (twoLeavesTable .core).lookup MAC_BROADCAST = some ⟨.unspec, 8, 0⟩ := by
    decide +kernel
  have entries : (twoLeavesTable .core).entries = [⟨0x30000, .inet6 (.ofV4 3) 9001, 8, 0⟩,
      ⟨0x20000, .inet6 (.ofV4 2) 9001, 8, 0⟩, ⟨MAC_BROADCAST, .unspec, 8, 0⟩] := by
    decide +kernel
  rcases node with _ | leaf
  · refine ⟨⟨_, placeholder, rfl⟩, ⟨_, placeholder, rfl⟩, ?_, ?_⟩
    · intro leaf other
      rw [twoLeavesVisit, entries]
      cases leaf with
      | true => exact absurd rfl other
      | false => exact ⟨_, List.mem_cons_self .., by decide⟩
    · intro entry member
      rw [twoLeavesVisit, entries] at member
      simp only [List.mem_cons, List.not_mem_nil, or_false] at member
      rcases member with rfl | rfl | rfl
      · exact .inl ⟨false, by decide⟩
      · exact .inl ⟨true, by decide⟩
      · exact .inr rfl
  · have uplink : (twoLeavesTable (.leaf leaf)).lookup MAC_BROADCAST =
        some ⟨.inet 1 9001, 8, 0⟩ := by
      cases leaf <;> decide +kernel
    exact ⟨_, uplink, by decide⟩

/-- One leaf broadcasts, and the other writes the frame once. -/
theorem broadcast_exactly_once_leaf :
    let frame : Bytes := [255, 255, 255, 255, 255, 255, 2, 0, 0, 0, 0, 0, 8, 0]
    let injected := Flight.inject twoLeaves.config frame (twoLeavesVisit (.leaf true) .unspec)
    let atCore := FlightEvent.deliver 0 (twoLeavesVisit .core (.inet6 (.ofV4 2) 9001))
    let atLeaf := FlightEvent.deliver 0 (twoLeavesVisit (.leaf false) (.inet6 (.ofV4 1) 9001))
    (Execution.run (Flight.step twoLeaves.config) injected [atCore, atLeaf]).taps.count
      (.leaf false, frame) = 1 := by
  intro frame injected atCore atLeaf
  have first : twoLeaves.Delivers (.leaf true) injected atCore :=
    @delivers_of _ _ _ _ _ _ (.leaf true) ⟨frame, .inet 1 9001, 8⟩ (by decide +kernel) (by decide)
      (fun _ => by decide) (twoLeaves_finds _ _)
  have second : twoLeaves.Delivers (.leaf true) (Flight.step twoLeaves.config injected atCore) atLeaf :=
    @delivers_of _ _ _ _ _ _ .core ⟨frame, .inet6 (.ofV4 3) 9001, 0⟩ (by decide +kernel) (by decide)
      (fun core => by cases core) (twoLeaves_finds _ _)
  have broadcast : twoLeaves.BroadcastFrame (.leaf true) frame :=
    ⟨by decide, by decide, by decide, by decide, by decide⟩
  have delivered : Execution.EveryStep (Flight.step twoLeaves.config)
      (twoLeaves.Delivers (.leaf true)) injected [atCore, atLeaf] :=
    And.intro first (And.intro second trivial)
  have result := broadcast_exactly_once twoLeaves broadcast rfl (twoLeaves_finds _ _) delivered
  exact result.2.2.2 (by decide +kernel) (.leaf false) (by decide)

end Star

end TalusVSwitch
