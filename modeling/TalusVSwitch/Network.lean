import TalusVSwitch.Library.Execution
import TalusVSwitch.Ageing
import TalusVSwitch.Control

/-! A network of nodes: their tables, the tasks posted on their pollers, and the
datagrams in flight between them. -/

namespace TalusVSwitch

universe u

/-- What a handler has still to do under its second lock of the table. -/
inductive Pending where
  | forward (received : Received) (pktRecvPeer : SockAddr)
  | broadcast (buf : Buffer)
deriving DecidableEq

/-- A command handed to a poller. -/
structure PostedCommand where
  buf : Buffer
  peer : SockAddr
  ttl : UInt8
deriving DecidableEq

/-- One node: its table with its removal tasks, the handlers between their two
sections, and the commands posted. -/
structure Station where
  ageing : Ageing
  pending : List Pending
  commands : List PostedCommand

/-- Everything a node does but receive. -/
inductive StationEvent where
  /-- A frame read from the TAP. -/
  | pollInterface (frame behind : Bytes)
  /-- The second section of a handler. -/
  | resume (index : Nat) (enumeration : Enumeration)
  | handleCmd (index : Nat) (enumeration : Enumeration)
  | keepLinks (enumeration : Enumeration)
  /-- A probe that a peer list has set off, to whatever address it named. -/
  | probe (mac : Mac) (addr : SockAddr)
  | sendQueryPeers
  | sendQueryPeerInfo
  | checkMac (enumeration : Enumeration)
  | runTask (index : Nat)
  | elapse (milliseconds : Nat)

namespace Station

variable (inet_ntoa : SockAddr → Bytes) (config : Config)

/-- The table `main` builds: the uplink entry alone. -/
def start (now : Nat) : Station where
  ageing := ⟨(∅ : MacMap).addMacPeer now MAC_BROADCAST config.corePeer config.sendTtl, [], now⟩
  pending := []
  commands := []

def table (station : Station) : MacMap := station.ageing.table

def withTable (station : Station) (table : MacMap) : Station :=
  { station with ageing := { station.ageing with table := table } }

/-- `pollInterface`, up to the second section of a broadcast. -/
def pollInterface (station : Station) (buf : Buffer) : Station × List Send :=
  if buf.size = 0 then (station, [])
  else
    match station.table.getMacPeer station.ageing.now buf.dMac with
    | (peer, _, table) =>
      if peer.inet_port != 0 then
        (station.withTable table, [⟨buf.bytes, peer, config.sendTtl⟩])
      else if buf.dMac == MAC_BROADCAST then
        ({ station.withTable table with pending := station.pending ++ [.broadcast buf] }, [])
      else (station.withTable table, [])

/-- The callback of `setOnRead` on a decoded datagram, up to the second section of the
receive lambda. -/
def receive (station : Station) (buf : Buffer) (peer : SockAddr) (ttl : UInt8) : Station :=
  let reception := Transport.classify buf ttl
  { ageing :=
      { station.ageing with
        table := VSwitch.learnFrom config station.ageing.now buf peer ttl station.table }
    pending :=
      match reception.callback with
      | none => station.pending
      | some received => station.pending ++ [.forward received peer]
    commands :=
      match reception.command with
      | none => station.commands
      | some command => station.commands ++ [⟨command, peer, ttl⟩] }

/-- The second section of a handler. -/
def resume (enumeration : Enumeration) (station : Station) : Pending → Station × List Send
  | .forward received peer =>
    let forwarded :=
      VSwitch.forward config enumeration station.ageing.now received peer station.table
    (station.withTable forwarded.1, forwarded.2)
  | .broadcast buf =>
    (station, sendBroadcast (enumeration.order station.table) buf .unspec config.sendTtl)

def act (station : Station) : StationEvent → Station × List Send
  | .pollInterface frame behind => station.pollInterface config ⟨frame, behind⟩
  | .resume index enumeration =>
    match station.pending[index]? with
    | none => (station, [])
    | some task =>
      resume config enumeration { station with pending := station.pending.eraseIdx index } task
  | .handleCmd index enumeration =>
    match station.commands[index]? with
    | none => (station, [])
    | some command =>
      ({ station with commands := station.commands.eraseIdx index },
        VSCtrlHelper.handleCmd inet_ntoa config (enumeration.order station.table) command.buf
          command.peer command.ttl)
  | .keepLinks enumeration => (station, keepLinks config (enumeration.order station.table))
  | .probe mac addr => (station, [sendKeepData config mac addr 0])
  | .sendQueryPeers => (station, [VSCtrlHelper.SendQueryPeers config])
  | .sendQueryPeerInfo => (station, [VSCtrlHelper.SendQueryPeerInfo config])
  | .checkMac enumeration =>
    ({ station with ageing := station.ageing.step (.checkMac enumeration) }, [])
  | .runTask index => ({ station with ageing := station.ageing.step (.runTask index) }, [])
  | .elapse milliseconds =>
    ({ station with ageing := station.ageing.step (.elapse milliseconds) }, [])

variable {inet_ntoa config} {station : Station}

theorem receive_table (buf : Buffer) (peer : SockAddr) (ttl : UInt8) :
    (station.receive config buf peer ttl).table =
      VSwitch.learnFrom config station.ageing.now buf peer ttl station.table := by
  simp only [receive, table]

/-- The two sections of the receive lambda, with whatever the node does in between, send
what the lambda sends. -/
theorem resume_receive {enumeration : Enumeration} {buf : Buffer} {peer : SockAddr} {ttl : UInt8}
    {received : Received} (called : (Transport.classify buf ttl).callback = some received)
    {interleaved : MacMap → MacMap} {later : Station}
    (between : later.table = interleaved (station.receive config buf peer ttl).table) :
    (resume config enumeration later (.forward received peer)).2 =
      (VSwitch.onDatagram config enumeration station.ageing.now interleaved buf peer ttl
        station.table).sends := by
  have learned : (station.receive config buf peer ttl).table =
      VSwitch.learn config station.ageing.now received peer station.table := by
    simp only [receive_table, VSwitch.learnFrom, called]
  simp only [resume, VSwitch.onDatagram, called, VSwitch.onPeerInput, between, learned]
  exact VSwitch.forward_sends_now _

/-- A TAP read sends what `pollInterface` sends, a broadcast in its second section. -/
theorem resume_pollInterface {enumeration : Enumeration} {buf : Buffer}
    {interleaved : MacMap → MacMap} {later : Station}
    (between : later.table = interleaved (station.pollInterface config buf).1.table) :
    ((station.pollInterface config buf).1.pending = station.pending ∧
      (station.pollInterface config buf).2 = (VSwitch.pollInterface config enumeration
        station.ageing.now interleaved buf station.table).2) ∨
    ((station.pollInterface config buf).1.pending = station.pending ++ [.broadcast buf] ∧
      (resume config enumeration later (.broadcast buf)).2 = (VSwitch.pollInterface config
        enumeration station.ageing.now interleaved buf station.table).2) := by
  by_cases empty : buf.size = 0
  · exact .inl ⟨by simp [pollInterface, empty], by simp [pollInterface, VSwitch.pollInterface, empty]⟩
  rcases looked : station.table.getMacPeer station.ageing.now buf.dMac with ⟨peer, got, after⟩
  by_cases port : peer.inet_port = 0
  · by_cases broadcast : buf.dMac = MAC_BROADCAST
    · right
      rw [broadcast] at looked
      simp only [pollInterface, VSwitch.pollInterface, empty, if_false, looked, port, broadcast,
        bne_self_eq_false, Bool.false_eq_true, beq_self_eq_true, if_true, true_and] at between ⊢
      simp only [resume, between]
      rfl
    · left
      simp [pollInterface, VSwitch.pollInterface, empty, looked, port, broadcast, withTable]
  · left
    simp [pollInterface, VSwitch.pollInterface, empty, looked, port, withTable]

theorem pollInterface_cases (config : Config) (station : Station) (buf : Buffer) :
    ∃ table : MacMap, MacMap.Kept station.table table ∧
      (station.pollInterface config buf = (station.withTable table, []) ∨
      (∃ peer, station.pollInterface config buf =
        (station.withTable table, [⟨buf.bytes, peer, config.sendTtl⟩])) ∨
      station.pollInterface config buf =
        ({ station.withTable table with pending := station.pending ++ [.broadcast buf] }, [])) := by
  by_cases empty : buf.size = 0
  · exact ⟨station.table, .refl _, .inl (by simp only [pollInterface, empty, if_true]; rfl)⟩
  refine ⟨(station.table.getMacPeer station.ageing.now buf.dMac).2.2, MacMap.kept_getMacPeer, ?_⟩
  rcases looked : station.table.getMacPeer station.ageing.now buf.dMac with ⟨peer, got, after⟩
  simp only [pollInterface, empty, if_false, looked]
  split_ifs
  · exact .inr (.inl ⟨peer, rfl⟩)
  · exact .inr (.inr rfl)
  · exact .inl rfl

theorem resume_cases (config : Config) (enumeration : Enumeration) (station : Station)
    (task : Pending) :
    ∃ table : MacMap, MacMap.Kept station.table table ∧
      (resume config enumeration station task).1 = station.withTable table ∧
      ∀ send ∈ (resume config enumeration station task).2,
        (∃ received pktRecvPeer, task = .forward received pktRecvPeer ∧ send.ttl < received.ttl) ∨
        ∃ mac, send.ttl = broadcastTtl mac config.sendTtl := by
  cases task with
  | forward received pktRecvPeer =>
    simp only [resume]
    generalize forwarded : VSwitch.forward config enumeration station.ageing.now received pktRecvPeer
      station.table = result
    refine ⟨result.1, ?_, rfl, ?_⟩
    · rw [← forwarded]
      exact VSwitch.forward_kept
    · intro send sent
      rw [← forwarded] at sent
      exact .inl ⟨received, pktRecvPeer, rfl, VSwitch.forward_ttl sent⟩
  | broadcast buf =>
    refine ⟨station.table, .refl _, rfl, ?_⟩
    intro send sent
    obtain ⟨entry, _, _, rfl⟩ := mem_sendBroadcast sent
    exact .inr ⟨entry.1, rfl⟩

end Station

/-- A datagram in flight, under the address its sender is seen with. -/
structure Datagram where
  src : SockAddr
  payload : Bytes
  addr : SockAddr
  ttl : UInt8
deriving DecidableEq, Repr

/-- The nodes, the datagrams in flight, and every frame a TAP has injected. -/
structure Network (Node : Type u) where
  stations : Node → Station
  inflight : List Datagram
  injected : List (Node × Bytes)

inductive NetworkEvent (Node : Type u) where
  /-- Any node gets one of the datagrams in flight. -/
  | deliver (index : Nat) (node : Node) (behind : Bytes)
  | lose (index : Nat)
  | act (node : Node) (event : StationEvent)

/-- The frame an event injects. -/
def StationEvent.injection : StationEvent → List Bytes
  | .pollInterface frame _ => [frame]
  | _ => []

namespace Network

variable {Node : Type u} (inet_ntoa : SockAddr → Bytes) (config : Node → Config)
  (address : Node → SockAddr)

def start (clock : Node → Nat) : Network Node where
  stations node := Station.start (config node) (clock node)
  inflight := []
  injected := []

variable [DecidableEq Node]

def step (network : Network Node) : NetworkEvent Node → Network Node
  | .deliver index node behind =>
    match network.inflight[index]? with
    | none => network
    | some datagram =>
      { network with
        stations := Function.update network.stations node
          ((network.stations node).receive (config node) ⟨datagram.payload, behind⟩ datagram.src
            datagram.ttl)
        inflight := network.inflight.eraseIdx index }
  | .lose index => { network with inflight := network.inflight.eraseIdx index }
  | .act node event =>
    let acted := (network.stations node).act inet_ntoa (config node) event
    { stations := Function.update network.stations node acted.1
      inflight := network.inflight ++
        acted.2.map (fun send => ⟨address node, send.buf, send.addr, send.ttl⟩)
      injected := event.injection.map (Prod.mk node) ++ network.injected }

end Network

end TalusVSwitch
