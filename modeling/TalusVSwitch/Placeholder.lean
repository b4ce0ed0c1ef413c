import TalusVSwitch.KnownPeers

namespace TalusVSwitch

universe u

namespace VSCtrlHelper

/-- The number a port text spells, as it stands there. -/
def portNumber (port : Bytes) : Int := (strtol 10 (cStr port)).getD 0

/-- An item that advertises this port number, and the address it comes to. -/
def Advertises (inet : InetText) (item : Bytes) (number : Int) (addr : SockAddr) : Prop :=
  ∃ macText host port, split item 45 = [macText, host, port] ∧ portNumber port = number ∧
    SockUtil.make_sockaddr inet (cStr host) (toUInt16 (atoi (cStr port))) = some addr

/-- A port number that `atoi` fits into a `long` and the `uint16_t` of `make_sockaddr` cuts
to 0. -/
def CutToZero (number : Int) : Prop :=
  65536 ∣ max (-9223372036854775808) (min number 9223372036854775807)

instance (number : Int) : Decidable (CutToZero number) :=
  inferInstanceAs (Decidable (65536 ∣ max (-9223372036854775808) (min number 9223372036854775807)))

variable {inet : InetText} {item : Bytes} {addr : SockAddr}

theorem Names.advertises (names : Names inet item addr) :
    ∃ number, Advertises inet item number addr := by
  obtain ⟨macText, host, port, fields, made⟩ := names
  exact ⟨_, macText, host, port, fields, rfl, made⟩

theorem port_eq_zero {port : Bytes} :
    toUInt16 (atoi (cStr port)) = 0 ↔ CutToZero (portNumber port) := by
  rw [toUInt16_eq_zero, atoi, CutToZero, portNumber, Int.bmod]
  split_ifs <;> omega

/-- An address is without a port exactly when the number advertised is cut to 0. -/
theorem Advertises.port {number : Int} (advertises : Advertises inet item number addr) :
    addr.inet_port = 0 ↔ CutToZero number := by
  obtain ⟨_, _, _, _, rfl, made⟩ := advertises
  rw [SockUtil.make_sockaddr_port made, port_eq_zero]

end VSCtrlHelper

open VSCtrlHelper (Names Advertises CutToZero portNumber)

namespace Station

/-- No address a node holds is without a port, but the uplink's where it has none. -/
structure PortsHeld (config : Config) (station : Station) : Prop where
  uplink : ∃ peerInfo, station.table.lookup MAC_BROADCAST = some peerInfo ∧
    peerInfo.sock = config.corePeer
  entries : ∀ mac peerInfo, mac ≠ MAC_BROADCAST → station.table.lookup mac = some peerInfo →
    peerInfo.sock.inet_port ≠ 0
  pending : ∀ received pktRecvPeer, .forward received pktRecvPeer ∈ station.pending →
    pktRecvPeer.inet_port ≠ 0
  commands : ∀ command ∈ station.commands, command.peer.inet_port ≠ 0

/-- A task that fans a broadcast out. -/
def FansOut (config : Config) : Pending → Prop
  | .forward received _ => received.buf.dMac ≠ config.macLocal ∧ received.ttl ≠ 0 ∧
      12 < received.buf.size ∧ received.buf.dMac = MAC_BROADCAST
  | .broadcast _ => True

/-- The control timers and the fan-out of a broadcast, which look at no port. -/
def UsesUplink (config : Config) (station : Station) : StationEvent → Prop
  | .sendQueryPeers | .sendQueryPeerInfo => True
  | .resume index _ => ∃ task, station.pending[index]? = some task ∧ FansOut config task
  | _ => False

variable {inet_ntoa : SockAddr → Bytes} {config : Config} {station : Station}

theorem portsHeld_receive (held : station.PortsHeld config) {buf : Buffer} {peer : SockAddr}
    {ttl : UInt8} (port : peer.inet_port ≠ 0) :
    (station.receive config buf peer ttl).PortsHeld config := by
  refine ⟨?_, ?_, ?_, ?_⟩
  · rw [receive_table, VSwitch.lookup_learnFrom_broadcast]
    exact held.uplink
  · intro mac peerInfo other found
    rw [receive_table] at found
    rcases VSwitch.learnFrom_entry found with ⟨before, stored, sock, _⟩ | ⟨_, _, sock, _⟩
    · rw [sock]
      exact held.entries mac before other stored
    · rwa [sock]
  · intro received pktRecvPeer queued
    rcases receive_pending queued with before | new
    · exact held.pending received pktRecvPeer before
    · cases new
      exact port
  · intro command queued
    rcases receive_commands queued with before | new
    · exact held.commands command before
    · rwa [new]

theorem portsHeld_act (held : station.PortsHeld config) (event : StationEvent) :
    (station.act inet_ntoa config event).1.PortsHeld config := by
  obtain ⟨uplink, found, core⟩ := held.uplink
  have acted := act_acted inet_ntoa config station event
  refine ⟨⟨uplink, acted.uplink uplink found, core⟩, ?_, ?_, ?_⟩
  · intro mac peerInfo other stored
    exact held.entries mac peerInfo other (acted.entries mac peerInfo other stored)
  · intro received pktRecvPeer queued
    rcases acted.pending _ queued with before | ⟨buf, new⟩
    · exact held.pending received pktRecvPeer before
    · cases new
  · intro command queued
    exact held.commands command (acted.commands command queued)

theorem portsHeld_start (config : Config) (now : Nat) : (start config now).PortsHeld config := by
  have found := start_uplink config now
  refine ⟨⟨_, found, rfl⟩, ?_, ?_, ?_⟩
  · intro mac peerInfo other stored
    rw [start_lookup_ne other] at stored
    cases stored
  · intro received pktRecvPeer queued
    cases queued
  · intro command queued
    cases queued

/-- A fan-out reaches the uplink's port, and else only ports of peers. -/
theorem sendBroadcast_ports (held : station.PortsHeld config) {enumeration : Enumeration}
    {frame : Buffer} {pktRecvPeer : SockAddr} {ttl : UInt8}
    (source : pktRecvPeer = .unspec ∨ pktRecvPeer.inet_port ≠ 0) :
    (∀ send ∈ sendBroadcast (enumeration.order station.table) frame pktRecvPeer ttl,
        send.addr.inet_port ≠ 0) ↔ config.corePeer.inet_port ≠ 0 := by
  obtain ⟨uplink, found, core⟩ := held.uplink
  constructor
  · intro ports noPort
    have member : (⟨MAC_BROADCAST, uplink⟩ : MacEntry) ∈ enumeration.order station.table :=
      (enumeration.perm station.table).mem_iff.mpr (AList.mem_lookup_iff.mp found)
    have away : compareSockAddr pktRecvPeer uplink.sock = false := by
      apply Bool.eq_false_iff.mpr
      intro equal
      rcases source with rfl | port
      · cases equal
      · rw [core] at equal
        exact port ((inet_port_eq_of_compare equal).trans noPort)
    obtain ⟨send, sent, same | equal⟩ := @sendBroadcast_covers frame pktRecvPeer ttl _ _ member away
    · exact ports send sent (by rw [same, core, noPort])
    · exact ports send sent (by rw [← inet_port_eq_of_compare equal, core, noPort])
  · intro port send sent
    obtain ⟨entry, member, _, rfl⟩ := mem_sendBroadcast sent
    have stored : station.table.lookup entry.1 = some entry.2 :=
      AList.mem_lookup_iff.mpr ((enumeration.perm station.table).mem_iff.mp member)
    by_cases broadcast : entry.1 = MAC_BROADCAST
    · rw [broadcast, found, Option.some.injEq] at stored
      rwa [copyTo, ← stored, core]
    · exact held.entries entry.1 entry.2 broadcast stored

theorem pollInterface_ports {buf : Buffer} {send : Send}
    (sent : send ∈ (station.pollInterface config buf).2) : send.addr.inet_port ≠ 0 := by
  by_cases empty : buf.size = 0
  · simp [pollInterface, empty] at sent
  rcases looked : station.table.getMacPeer station.ageing.now buf.dMac with ⟨peer, got, after⟩
  simp only [pollInterface, empty, if_false, looked] at sent
  split_ifs at sent with port
  · rw [List.mem_singleton.mp sent]
    simpa using port
  · cases sent
  · cases sent

theorem resume_ports (held : station.PortsHeld config) {enumeration : Enumeration} {task : Pending}
    (source : ∀ received pktRecvPeer, task = .forward received pktRecvPeer →
      pktRecvPeer.inet_port ≠ 0) :
    (∀ send ∈ (resume config enumeration station task).2, send.addr.inet_port ≠ 0) ↔
      (config.corePeer.inet_port ≠ 0 ∨ ¬ FansOut config task) := by
  cases task with
  | broadcast buf =>
    simp only [resume, FansOut, not_true_eq_false, or_false]
    exact sendBroadcast_ports held (.inl rfl)
  | forward received pktRecvPeer =>
    by_cases fans : FansOut config (.forward received pktRecvPeer)
    · have guards := fans
      obtain ⟨foreign, live, long, broadcast⟩ := guards
      simp only [resume, VSwitch.forward_broadcast foreign live long broadcast, fans,
        not_true_eq_false, or_false]
      exact sendBroadcast_ports held (.inr (source received pktRecvPeer rfl))
    · simp only [fans, not_false_eq_true, or_true, iff_true]
      intro send sent
      simp only [resume] at sent
      rcases VSwitch.forward_cases config enumeration station.ageing.now received pktRecvPeer
          station.table with
        nothing | ⟨foreign, live, long, ⟨unicast, peerInfo, found, one⟩ | ⟨broadcast, _⟩⟩
      · rw [nothing] at sent
        cases sent
      · rw [one, List.mem_singleton] at sent
        rw [sent]
        exact held.entries _ peerInfo unicast found
      · exact absurd ⟨foreign, live, long, broadcast⟩ fans

theorem ports_of_tested {event : StationEvent} (tested : ¬ station.UsesUplink config event)
    (other : ∀ mac addr, event ≠ .probe mac addr)
    (ports : ∀ send ∈ (station.act inet_ntoa config event).2, send.addr.inet_port ≠ 0) :
    (∀ send ∈ (station.act inet_ntoa config event).2, send.addr.inet_port ≠ 0) ↔
      (config.corePeer.inet_port ≠ 0 ∨ ¬ station.UsesUplink config event) ∧
        ∀ mac addr, event = .probe mac addr → addr.inet_port ≠ 0 :=
  iff_of_true ports ⟨.inr tested, fun mac addr same => absurd same (other mac addr)⟩

theorem act_ports (held : station.PortsHeld config) (event : StationEvent) :
    (∀ send ∈ (station.act inet_ntoa config event).2, send.addr.inet_port ≠ 0) ↔
      (config.corePeer.inet_port ≠ 0 ∨ ¬ station.UsesUplink config event) ∧
        ∀ mac addr, event = .probe mac addr → addr.inet_port ≠ 0 := by
  cases event with
  | pollInterface frame behind =>
    exact ports_of_tested id (by simp) (fun send sent => pollInterface_ports sent)
  | resume index enumeration =>
    simp only [act, UsesUplink, reduceCtorEq, false_implies, implies_true, and_true]
    cases picked : station.pending[index]? with
    | none => simp
    | some task =>
      have rest : PortsHeld config { station with pending := station.pending.eraseIdx index } :=
        ⟨held.uplink, held.entries, fun received pktRecvPeer queued =>
          held.pending received pktRecvPeer (List.mem_of_mem_eraseIdx queued), held.commands⟩
      simp only [Option.some.injEq, exists_eq_left']
      apply resume_ports rest
      rintro received pktRecvPeer rfl
      exact held.pending received pktRecvPeer (List.mem_of_getElem? picked)
  | handleCmd index enumeration =>
    refine ports_of_tested id (by simp) ?_
    simp only [act]
    cases picked : station.commands[index]? with
    | none => simp
    | some command =>
      intro send sent
      rw [(VSCtrlHelper.handleCmd_sends sent).1]
      exact held.commands command (List.mem_of_getElem? picked)
  | keepLinks enumeration =>
    refine ports_of_tested id (by simp) ?_
    intro send sent
    obtain ⟨entry, listed, rfl⟩ := List.mem_map.mp sent
    simpa [sendKeepData] using (List.mem_filter.mp listed).2
  | probe mac addr => simp [act, UsesUplink, sendKeepData]
  | sendQueryPeers => simp [act, UsesUplink, VSCtrlHelper.SendQueryPeers]
  | sendQueryPeerInfo => simp [act, UsesUplink, VSCtrlHelper.SendQueryPeerInfo]
  | checkMac | runTask | elapse => simp [act, UsesUplink]

end Station

namespace Daemon

variable {Poller : Type u} {inet : InetText} {inet_ntoa : SockAddr → Bytes} {config : Config}
  {daemon : Daemon Poller}

/-- An item of a peer list received. -/
def Heard (events : List (DaemonEvent Poller)) (item : Bytes) : Prop :=
  ∃ buf peer ttl, .receive buf peer ttl ∈ events ∧
    VSCtrlHelper.commandOf buf = some .ReQueryPeers ∧ item ∈ VSCtrlHelper.itemsOf buf.bytes

/-- Datagrams come from a port, and the ports that peer lists advertise are not 0. -/
structure Ported (inet : InetText) (events : List (DaemonEvent Poller)) : Prop where
  sources : ∀ buf peer ttl, .receive buf peer ttl ∈ events → peer.inet_port ≠ 0
  advertised : ∀ item number addr, Heard events item → Advertises inet item number addr →
    number ≠ 0

/-- A step hands no address without a port to `send`. -/
def Untouched (inet_ntoa : SockAddr → Bytes) (config : Config) (daemon : Daemon Poller)
    (event : DaemonEvent Poller) : Prop :=
  ∀ send ∈ daemon.sends inet_ntoa config event, send.addr.inet_port ≠ 0

instance (daemon : Daemon Poller) (event : DaemonEvent Poller) :
    Decidable (daemon.Untouched inet_ntoa config event) :=
  inferInstanceAs (Decidable (∀ send ∈ daemon.sends inet_ntoa config event,
    send.addr.inet_port ≠ 0))

/-- A control timer's question, or the fan-out of a broadcast. -/
def UsesUplink (config : Config) (daemon : Daemon Poller) (event : DaemonEvent Poller) : Prop :=
  ∃ deed, daemon.deed event = some deed ∧ daemon.station.UsesUplink config deed

/-- A probe, after these events, of an address for which an item advertised a port that is not
0 but cut to 0. -/
def CutsPort (inet : InetText) (events : List (DaemonEvent Poller)) (daemon : Daemon Poller)
    (event : DaemonEvent Poller) : Prop :=
  ∃ probe ∈ daemon.keepData event, ∃ item number, Heard events item ∧
    Advertises inet item number probe.peer ∧ number ≠ 0 ∧ CutToZero number

theorem deed_probe (clean : ∀ mac addr, .act (.probe mac addr) ∉ daemon.startups)
    (event : DaemonEvent Poller) (mac : Mac) (addr : SockAddr) :
    daemon.deed event = some (.probe mac addr) ↔ ⟨mac, addr⟩ ∈ daemon.keepData event := by
  cases event with
  | main poller =>
    simp only [deed, keepData, List.not_mem_nil, iff_false]
    split
    · rename_i listed
      rintro ⟨⟩
      exact clean mac addr (by rw [listed]; exact List.mem_cons_self)
    · rintro ⟨⟩
  | runDelayTask poller enumeration =>
    simp only [deed, keepData]
    cases daemon.due poller with
    | nil => simp
    | cons task rest =>
      cases task with
      | keepData probe retry =>
        obtain ⟨mac', peer⟩ := probe
        simp [DelayTask.event, DelayTask.probe?, eq_comm]
      | checkMac | keepLinks | sendQueryPeers | sendQueryPeerInfo =>
        simp [DelayTask.event, DelayTask.probe?]
  | _ => simp [deed, keepData]

theorem deed_of_keepData {event : DaemonEvent Poller} (idle : daemon.deed event = none) :
    daemon.keepData event = [] := by
  cases event with
  | runDelayTask poller enumeration =>
    have none := Option.map_eq_none_iff.mp idle
    simp [keepData, none]
  | _ => rfl

theorem untouched_iff (held : daemon.station.PortsHeld config)
    (clean : ∀ mac addr, .act (.probe mac addr) ∉ daemon.startups) (event : DaemonEvent Poller) :
    daemon.Untouched inet_ntoa config event ↔
      (config.corePeer.inet_port ≠ 0 ∨ ¬ daemon.UsesUplink config event) ∧
        ∀ probe ∈ daemon.keepData event, probe.peer.inet_port ≠ 0 := by
  cases done : daemon.deed event with
  | none => simp [Untouched, sends, UsesUplink, done, deed_of_keepData done]
  | some deed =>
    have sends : daemon.sends inet_ntoa config event =
        (daemon.station.act inet_ntoa config deed).2 := by
      simp [Daemon.sends, done]
    have probes : (∀ mac addr, deed = .probe mac addr → addr.inet_port ≠ 0) ↔
        ∀ probe ∈ daemon.keepData event, probe.peer.inet_port ≠ 0 := by
      constructor
      · rintro ported ⟨mac, addr⟩ due
        rw [← deed_probe clean, done, Option.some.injEq] at due
        exact ported mac addr due
      · rintro ported mac addr rfl
        exact ported ⟨mac, addr⟩ ((deed_probe clean event mac addr).mp done)
    rw [Untouched, sends, Station.act_ports held, probes]
    simp only [UsesUplink, done, Option.some.injEq, exists_eq_left']

variable [DecidableEq Poller]

theorem portsHeld_step (held : daemon.station.PortsHeld config) {event : DaemonEvent Poller}
    (source : ∀ buf peer ttl, event = .receive buf peer ttl → peer.inet_port ≠ 0) :
    (daemon.step inet inet_ntoa config event).station.PortsHeld config := by
  obtain ⟨uplink, found, _⟩ := held.uplink
  rcases @station_cases _ inet inet_ntoa config daemon _ (MacMap.mem_of_lookup found) event with
    ⟨buf, peer, ttl, same, result⟩ | same | ⟨deed, result⟩
  · rw [result]
    exact Station.portsHeld_receive held (source buf peer ttl same)
  · rwa [same]
  · rw [result]
    exact Station.portsHeld_act held deed

theorem portsHeld_run {now : Nat} {enableP2p : Bool} {events : List (DaemonEvent Poller)}
    (sources : ∀ buf peer ttl, .receive buf peer ttl ∈ events → peer.inet_port ≠ 0) :
    (Execution.run (step inet inet_ntoa config) (start config now enableP2p) events).station.PortsHeld
      config := by
  apply @Execution.run_admitted _ _ (step inet inet_ntoa config)
    (fun daemon : Daemon Poller => daemon.station.PortsHeld config)
    (fun event => ∀ buf peer ttl, event = .receive buf peer ttl → peer.inet_port ≠ 0)
  · exact fun daemon event source held => portsHeld_step held source
  · exact Station.portsHeld_start config now
  · rintro _ member buf peer ttl rfl
    exact sources buf peer ttl member

/-- A probe goes to an address for which an item heard advertises a port. -/
theorem probe_advertised {now : Nat} {enableP2p : Bool} {events : List (DaemonEvent Poller)}
    {event : DaemonEvent Poller} {probe : Probe}
    (due : probe ∈ (Execution.run (step inet inet_ntoa config) (start config now enableP2p)
      events).keepData event) :
    ∃ item number, Heard events item ∧ Advertises inet item number probe.peer := by
  have listed : Listed inet (Execution.run (step inet inet_ntoa config)
      (start config now enableP2p) events) probe.peer := by
    cases event with
    | runDelayTask poller enumeration =>
      obtain ⟨task, first, belongs⟩ := Option.bind_eq_some_iff.mp (Option.mem_toList.mp due)
      exact .probe probe ⟨task, .inr ⟨poller, .inr (.inr (List.mem_of_head? first))⟩, belongs⟩ rfl
    | _ => cases due
  rcases @Execution.run_provenance _ _ _ (step inet inet_ntoa config)
    (fun daemon addr => Listed inet daemon addr)
    (fun event addr => ∃ buf peer ttl, event = .receive buf peer ttl ∧
      VSCtrlHelper.commandOf buf = some .ReQueryPeers ∧
        ∃ item ∈ VSCtrlHelper.itemsOf buf.bytes, Names inet item addr)
    (fun _ _ _ listed => listed_step listed) _ _ _ listed with
    initial | ⟨_, member, buf, peer, ttl, rfl, dispatched, item, named, names⟩
  · exact absurd initial not_listed_start
  · obtain ⟨number, advertises⟩ := names.advertises
    exact ⟨item, number, ⟨buf, peer, ttl, member, dispatched, named⟩, advertises⟩

/-- Over every run of a node with its timers, with a remote or without, each step keeps to
addresses with a port exactly when, at each step, the uplink has a port or the step is neither
a control timer's question nor the fan-out of a broadcast, and it sends no probe to an address
whose port was advertised as a number that is cut to 0. -/
theorem placeholder_untouched_iff (inet : InetText) (inet_ntoa : SockAddr → Bytes) (config : Config)
    (now : Nat) (enableP2p : Bool) (events : List (DaemonEvent Poller))
    (ported : Ported inet events) :
    Execution.EveryStep (step inet inet_ntoa config) (Untouched inet_ntoa config)
        (start config now enableP2p) events ↔
      ∀ first event, first ++ [event] <+: events →
        let daemon := Execution.run (step inet inet_ntoa config) (start config now enableP2p) first
        (config.corePeer.inet_port ≠ 0 ∨ ¬ daemon.UsesUplink config event) ∧
          ¬ daemon.CutsPort inet first event := by
  rw [Execution.EveryStep.iff_prefix]
  refine forall_congr' fun first => forall_congr' fun event => forall_congr' fun earlier => ?_
  have before : first ⊆ events := fun _ member =>
    earlier.subset (List.mem_append_left _ member)
  have held := @portsHeld_run _ inet inet_ntoa config _ now enableP2p first
    (fun buf peer ttl member => ported.sources buf peer ttl (before member))
  have clean := @Execution.run_invariant _ _ (step inet inet_ntoa config)
    (fun daemon : Daemon Poller => ∀ mac addr, .act (.probe mac addr) ∉ daemon.startups)
    (fun _ event clean mac addr later => clean mac addr (startups_step event later))
    (start config now enableP2p) (fun _ _ => not_startup_probe) first
  rw [untouched_iff held clean]
  refine and_congr_right fun _ => ?_
  constructor
  · rintro reachable ⟨probe, due, item, number, _, advertises, _, cut⟩
    exact reachable probe due (advertises.port.mpr cut)
  · intro whole probe due noPort
    obtain ⟨item, number, heard, advertises⟩ := probe_advertised due
    obtain ⟨buf, peer, ttl, member, listed⟩ := heard
    have named : number ≠ 0 :=
      ported.advertised item number probe.peer ⟨buf, peer, ttl, before member, listed⟩ advertises
    exact whole ⟨probe, due, item, number, ⟨buf, peer, ttl, member, listed⟩, advertises, named,
      advertises.port.mp noPort⟩

/-- A peer list with one item comes in, and its probe goes out. -/
def probing (payload : Bytes) : List (DaemonEvent Unit) :=
  [.receive ⟨payload, []⟩ (.inet 0x0A000001 9001) 4, .handleCmd 0 .stored, .examineItem 0 (),
    .emplace () 0, .elapse 1000, .getMinDelay (), .runDelayTask () .stored]

/-- The core's peer list, with a peer at this port. -/
def peerAt (port : Bytes) : Bytes :=
  VSCtrlHelper.header ⟨0x0200000000020000, 4, .unspec, []⟩ .ReQueryPeers ++
    text "02:00:00:00:00:01-10.0.0.9-" ++ port ++ text ","

theorem ported_probing {payload macText host port : Bytes} {item : Bytes}
    (listed : VSCtrlHelper.itemsOf payload = [item])
    (fields : split item 45 = [macText, host, port]) (named : portNumber port ≠ 0) :
    Ported inet (probing payload) ∧ ∀ other number addr, Heard (probing payload) other →
      Advertises inet other number addr → number = portNumber port := by
  have heard {other : Bytes} (heard : Heard (probing payload) other) : other = item := by
    obtain ⟨buf, peer, ttl, member, _, named⟩ := heard
    simp only [probing, List.mem_cons, List.not_mem_nil, or_false, reduceCtorEq,
      DaemonEvent.receive.injEq] at member
    obtain ⟨rfl, rfl, rfl⟩ := member
    rwa [listed, List.mem_singleton] at named
  have advertised {other : Bytes} {number : Int} {addr : SockAddr}
      (there : Heard (probing payload) other) (advertises : Advertises inet other number addr) :
      number = portNumber port := by
    obtain ⟨_, _, _, parts, rfl, _⟩ := advertises
    rw [heard there, fields] at parts
    cases parts
    rfl
  refine ⟨⟨?_, fun _ _ _ there advertises => ?_⟩, fun _ _ _ => advertised⟩
  · intro buf peer ttl member
    simp only [probing, List.mem_cons, List.not_mem_nil, or_false, reduceCtorEq,
      DaemonEvent.receive.injEq] at member
    obtain ⟨rfl, rfl, rfl⟩ := member
    decide
  · rw [advertised there advertises]
    exact named

/-- A node without a remote asks `0.0.0.0` port 0 about itself, and fans a broadcast of its TAP
out to it; and a node with a remote probes a peer advertised at port 65536 at port 0. -/
theorem placeholder_used :
    (¬ Execution.EveryStep (step .unabridged (fun _ => []) ⟨0x30000, 8, .inet 0 0, []⟩)
      (Untouched (fun _ => []) ⟨0x30000, 8, .inet 0 0, []⟩)
      (start ⟨0x30000, 8, .inet 0 0, []⟩ 0 false) [.main (), .main (), .main ()]) ∧
    (¬ Execution.EveryStep (step .unabridged (fun _ => []) ⟨0x30000, 8, .inet 0 0, []⟩)
      (Untouched (fun _ => []) ⟨0x30000, 8, .inet 0 0, []⟩)
      (start ⟨0x30000, 8, .inet 0 0, []⟩ 0 false : Daemon Unit)
      [.pollInterface [255, 255, 255, 255, 255, 255, 3, 0, 0, 0, 0, 0, 8, 6] [],
        .resume 0 .stored]) ∧
    Ported .unabridged (probing (peerAt (text "65536"))) ∧
    ¬ Execution.EveryStep
      (step .unabridged (fun _ => []) ⟨0x0300000000020000, 4, .inet 0x0A000001 9001, []⟩)
      (Untouched (fun _ => []) ⟨0x0300000000020000, 4, .inet 0x0A000001 9001, []⟩)
      (start ⟨0x0300000000020000, 4, .inet 0x0A000001 9001, []⟩ 0 false)
      (probing (peerAt (text "65536"))) := by
  have listed : VSCtrlHelper.itemsOf (peerAt (text "65536")) =
      [text "02:00:00:00:00:01-10.0.0.9-65536"] := by decide +kernel
  have fields : split (text "02:00:00:00:00:01-10.0.0.9-65536") 45 =
      [text "02:00:00:00:00:01", text "10.0.0.9", text "65536"] := by decide +kernel
  refine ⟨by decide +kernel, by decide +kernel, ?_, by decide +kernel⟩
  exact (ported_probing listed fields (by decide +kernel)).1

/-- A node with a remote, that probes a peer advertised at port 9001. -/
theorem placeholder_untouched_remote :
    Execution.EveryStep
      (step .unabridged (fun _ => []) ⟨0x0300000000020000, 4, .inet 0x0A000001 9001, []⟩)
      (Untouched (fun _ => []) ⟨0x0300000000020000, 4, .inet 0x0A000001 9001, []⟩)
      (start ⟨0x0300000000020000, 4, .inet 0x0A000001 9001, []⟩ 0 false)
      (probing (peerAt (text "9001"))) := by
  have listed : VSCtrlHelper.itemsOf (peerAt (text "9001")) =
      [text "02:00:00:00:00:01-10.0.0.9-9001"] := by decide +kernel
  have fields : split (text "02:00:00:00:00:01-10.0.0.9-9001") 45 =
      [text "02:00:00:00:00:01", text "10.0.0.9", text "9001"] := by decide +kernel
  obtain ⟨ported, advertised⟩ :=
    @ported_probing .unabridged _ _ _ _ _ listed fields (by decide +kernel)
  refine (placeholder_untouched_iff .unabridged (fun _ => [])
    ⟨0x0300000000020000, 4, .inet 0x0A000001 9001, []⟩ 0 false _ ported).mpr ?_
  intro first event earlier daemon
  refine ⟨.inl (by decide), ?_⟩
  rintro ⟨probe, _, item, number, ⟨buf, peer, ttl, member, listed⟩, advertises, _, cut⟩
  have whole := earlier.subset (List.mem_append_left _ member)
  rw [advertised item number probe.peer ⟨buf, peer, ttl, whole, listed⟩ advertises] at cut
  exact absurd cut (by decide +kernel)

end Daemon

end TalusVSwitch
