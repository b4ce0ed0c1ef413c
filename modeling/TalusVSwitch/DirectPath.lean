import TalusVSwitch.StationRun

namespace TalusVSwitch

universe u

namespace Station

variable {inet_ntoa : SockAddr → Bytes} {config : Config} {station : Station}

/-- Nothing a node has still to work on exceeds its own TTL. -/
structure Bounded (config : Config) (station : Station) : Prop where
  pending : ∀ received pktRecvPeer, .forward received pktRecvPeer ∈ station.pending →
    received.ttl ≤ config.sendTtl
  commands : ∀ command ∈ station.commands, command.ttl ≤ config.sendTtl

theorem act_bounded (bounded : station.Bounded config) (event : StationEvent) :
    (station.act inet_ntoa config event).1.Bounded config := by
  have acted := act_acted inet_ntoa config station event
  refine ⟨?_, fun command queued => bounded.commands command (acted.commands command queued)⟩
  intro received pktRecvPeer queued
  rcases acted.pending _ queued with before | ⟨buf, new⟩
  · exact bounded.pending received pktRecvPeer before
  · cases new

/-- A frame that no receiver takes for another node's: too short to hold both
addresses, or without a destination. -/
def Unaddressed (payload : Bytes) : Prop :=
  payload.length < 12 ∨ Buffer.dMac ⟨payload, []⟩ = 0

/-- What a node sends with its full TTL is a frame from its TAP, or has no destination. -/
theorem act_sends (bounded : station.Bounded config) (live : 1 ≤ config.sendTtl)
    {event : StationEvent} {send : Send} (sent : send ∈ (station.act inet_ntoa config event).2) :
    send.ttl ≤ config.sendTtl ∧
      (send.ttl = config.sendTtl → send.buf ∈ event.injection ∨ Unaddressed send.buf) := by
  have budget := ttl_ne_zero live
  have less {ttl : UInt8} (smaller : ttl < config.sendTtl) (frame : Bytes) :
      ttl ≤ config.sendTtl ∧
        (ttl = config.sendTtl → frame ∈ event.injection ∨ Unaddressed frame) :=
    ⟨UInt8.le_of_lt smaller, fun same => absurd same (UInt8.ne_of_lt smaller)⟩
  have spent (frame : Bytes) : (0 : UInt8) ≤ config.sendTtl ∧
      (0 = config.sendTtl → frame ∈ event.injection ∨ Unaddressed frame) :=
    less (UInt8.lt_of_lt_of_le (by decide) live) frame
  have query (command : VSCtrlHelper.Command) :
      Unaddressed (VSCtrlHelper.header config command) :=
    .inr (VSCtrlHelper.dMac_of_zero_prefix (VSCtrlHelper.zero_prefix_header config command))
  cases event with
  | pollInterface frame behind =>
    obtain ⟨after, _, result | ⟨peer, result⟩ | result⟩ :=
      pollInterface_cases config station ⟨frame, behind⟩
    · simp [act, result] at sent
    · simp only [act, result, List.mem_singleton] at sent
      rw [sent]
      exact ⟨UInt8.le_refl _, fun _ => .inl (List.mem_singleton.mpr rfl)⟩
    · simp [act, result] at sent
  | resume index enumeration =>
    simp only [act] at sent
    split at sent
    · cases sent
    · rename_i task picked
      obtain ⟨after, _, _, sends⟩ := resume_cases config enumeration
        { station with pending := station.pending.eraseIdx index } task
      rcases sends send sent with ⟨received, pktRecvPeer, rfl, smaller⟩ | ⟨mac, ttl⟩
      · have within := bounded.pending received pktRecvPeer (List.mem_of_getElem? picked)
        exact less (UInt8.lt_of_lt_of_le smaller within) send.buf
      · rw [ttl]
        exact less (broadcastTtl_lt budget) send.buf
  | handleCmd index enumeration =>
    simp only [act] at sent
    split at sent
    · cases sent
    · rename_i command picked
      obtain ⟨_, ttl, payload⟩ := VSCtrlHelper.handleCmd_sends sent
      refine ⟨?_, fun _ => .inr ?_⟩
      · rcases ttl with same | same
        · rw [same]
          exact bounded.commands command (List.mem_of_getElem? picked)
        · rw [same]
          exact UInt8.le_refl _
      · rcases payload with empty | zero
        · exact .inl (by rw [empty]; decide)
        · exact .inr (VSCtrlHelper.dMac_of_zero_prefix zero)
  | keepLinks enumeration =>
    obtain ⟨entry, _, rfl⟩ := List.mem_map.mp sent
    exact spent _
  | probe mac addr =>
    rw [act, List.mem_singleton] at sent
    rw [sent]
    exact spent _
  | sendQueryPeers =>
    rw [act, List.mem_singleton] at sent
    rw [sent]
    exact ⟨UInt8.le_refl _, fun _ => .inr (query .QueryPeers)⟩
  | sendQueryPeerInfo =>
    rw [act, List.mem_singleton] at sent
    rw [sent]
    exact ⟨UInt8.le_refl _, fun _ => .inr (query .QueryPeerInfo)⟩
  | checkMac | runTask | elapse => cases sent

theorem receive_bounded (bounded : station.Bounded config) {buf : Buffer} {peer : SockAddr}
    {ttl : UInt8} (within : ttl ≤ config.sendTtl) :
    (station.receive config buf peer ttl).Bounded config := by
  refine ⟨?_, ?_⟩
  · intro received pktRecvPeer queued
    rcases receive_pending queued with before | new
    · exact bounded.pending received pktRecvPeer before
    · cases new
      exact within
  · intro command queued
    rcases receive_commands queued with before | new
    · exact bounded.commands command before
    · rw [new]
      exact within

end Station

namespace Network

variable {Node : Type u} (inet_ntoa : SockAddr → Bytes) (config : Node → Config)
  (address : Node → SockAddr) (sendTtl : UInt8)

/-- The address is that of a node whose TAP injected a frame with this source. -/
def IsDirect (network : Network Node) (sock : SockAddr) (mac : Mac) : Prop :=
  ∃ node frame, sock = address node ∧ (node, frame) ∈ network.injected ∧ 12 ≤ frame.length ∧
    Buffer.sMac ⟨frame, []⟩ = mac

/-- No node learns from a full-TTL datagram too short to hold both addresses. -/
def ReadsAddresses (network : Network Node) (event : NetworkEvent Node) : Prop :=
  ∀ index node behind datagram, event = .deliver index node behind →
    network.inflight[index]? = some datagram → datagram.ttl = sendTtl →
    datagram.payload.length < 12 → ¬ VSwitch.Learns (config node) ⟨datagram.payload, behind⟩

/-- What carries the full TTL was injected by its sender, in flight and in the tables. -/
structure Invariant (network : Network Node) : Prop where
  bounded : ∀ node, (network.stations node).Bounded (config node)
  carried : ∀ datagram ∈ network.inflight, datagram.ttl ≤ sendTtl ∧ (datagram.ttl = sendTtl →
    (∃ node, datagram.src = address node ∧ (node, datagram.payload) ∈ network.injected) ∨
      Station.Unaddressed datagram.payload)
  direct : ∀ node mac peerInfo, mac ≠ MAC_BROADCAST →
    (network.stations node).table.lookup mac = some peerInfo → peerInfo.ttl = sendTtl →
    network.IsDirect address peerInfo.sock mac

variable {inet_ntoa config address sendTtl} {network : Network Node}

theorem IsDirect.mono {later : Network Node} {sock : SockAddr} {mac : Mac}
    (direct : network.IsDirect address sock mac) (history : network.injected ⊆ later.injected) :
    later.IsDirect address sock mac := by
  obtain ⟨node, frame, sock, injected, facts⟩ := direct
  exact ⟨node, frame, sock, history injected, facts⟩

/-- A full-TTL datagram that is learned from comes straight from its injector. -/
theorem learned_direct (invariant : Invariant config address sendTtl network) {index : Nat}
    {node : Node} {behind : Bytes} {datagram : Datagram}
    (reads : ReadsAddresses config sendTtl network (.deliver index node behind))
    (picked : network.inflight[index]? = some datagram) (full : datagram.ttl = sendTtl)
    (learns : VSwitch.Learns (config node) ⟨datagram.payload, behind⟩) :
    ∃ sender, datagram.src = address sender ∧ (sender, datagram.payload) ∈ network.injected ∧
      12 ≤ datagram.payload.length ∧
      Buffer.sMac ⟨datagram.payload, []⟩ = Buffer.sMac ⟨datagram.payload, behind⟩ := by
  have header : 12 ≤ datagram.payload.length := by
    by_contra short
    exact reads index node behind datagram rfl picked full (Nat.lt_of_not_le short) learns
  rcases (invariant.carried datagram (List.mem_of_getElem? picked)).2 full with
    ⟨sender, source, injected⟩ | short | nowhere
  · exact ⟨sender, source, injected, header, Buffer.sMac_congr header⟩
  · exact absurd header (Nat.not_le.mpr short)
  · have addressed := learns.addressed
    rw [Buffer.dMac_congr header] at addressed
    exact absurd nowhere addressed

theorem invariant_start (clock : Node → Nat) :
    Invariant config address sendTtl (start config clock) := by
  refine ⟨fun node => ⟨fun _ _ queued => ?_, fun _ queued => ?_⟩, fun _ flying => ?_, ?_⟩
  · cases queued
  · cases queued
  · cases flying
  · intro node mac peerInfo other found
    rcases MacMap.mem_addMacPeer.mp (MacMap.mem_of_lookup found) with same | absent
    · exact absurd same other
    · exact absurd absent (AList.notMem_empty mac)

variable [DecidableEq Node]

theorem invariant_act (same : ∀ node, (config node).sendTtl = sendTtl) (live : 1 ≤ sendTtl)
    (invariant : Invariant config address sendTtl network) (node : Node) (event : StationEvent) :
    Invariant config address sendTtl (step inet_ntoa config address network (.act node event)) := by
  have grows : network.injected ⊆
      (step inet_ntoa config address network (.act node event)).injected :=
    List.subset_append_right _ _
  refine ⟨?_, ?_, ?_⟩
  · intro other
    by_cases here : other = node
    · subst here
      simp only [step, Function.update_self]
      exact Station.act_bounded (invariant.bounded other) event
    · simp only [step, Function.update_of_ne here]
      exact invariant.bounded other
  · intro datagram flying
    rcases List.mem_append.mp flying with before | new
    · obtain ⟨within, origin⟩ := invariant.carried datagram before
      refine ⟨within, fun full => ?_⟩
      rcases origin full with ⟨sender, source, injected⟩ | unaddressed
      · exact .inl ⟨sender, source, grows injected⟩
      · exact .inr unaddressed
    · obtain ⟨send, sent, rfl⟩ := List.mem_map.mp new
      obtain ⟨within, origin⟩ := Station.act_sends (invariant.bounded node)
        (by rw [same]; exact live) sent
      rw [same] at within origin
      refine ⟨within, fun full => ?_⟩
      rcases origin full with injected | unaddressed
      · exact .inl ⟨node, rfl, List.mem_append_left _ (List.mem_map_of_mem injected)⟩
      · exact .inr unaddressed
  · intro other mac peerInfo entry found full
    apply IsDirect.mono _ grows
    by_cases here : other = node
    · subst here
      simp only [step, Function.update_self] at found
      have acted := Station.act_acted inet_ntoa (config other) (network.stations other) event
      exact invariant.direct other mac peerInfo entry (acted.entries mac peerInfo entry found) full
    · simp only [step, Function.update_of_ne here] at found
      exact invariant.direct other mac peerInfo entry found full

theorem invariant_deliver (same : ∀ node, (config node).sendTtl = sendTtl)
    (invariant : Invariant config address sendTtl network) {index : Nat} {node : Node}
    {behind : Bytes} (reads : ReadsAddresses config sendTtl network (.deliver index node behind)) :
    Invariant config address sendTtl
      (step inet_ntoa config address network (.deliver index node behind)) := by
  cases picked : network.inflight[index]? with
  | none =>
    simp only [step, picked]
    exact invariant
  | some datagram =>
    obtain ⟨within, _⟩ := invariant.carried datagram (List.mem_of_getElem? picked)
    simp only [step, picked]
    refine ⟨?_, ?_, ?_⟩
    · intro other
      by_cases here : other = node
      · subst here
        simp only [Function.update_self]
        exact Station.receive_bounded (invariant.bounded other) (by rw [same]; exact within)
      · simp only [Function.update_of_ne here]
        exact invariant.bounded other
    · intro flying member
      exact invariant.carried flying (List.mem_of_mem_eraseIdx member)
    · intro other mac peerInfo entry found full
      by_cases here : other = node
      · subst here
        simp only [Function.update_self, Station.receive_table] at found
        rcases VSwitch.learnFrom_entry found with ⟨before, stored, sock, ttl⟩ | ⟨learns, rfl, sock, ttl, _⟩
        · rw [sock]
          exact invariant.direct other mac before entry stored (ttl.symm.trans full)
        · obtain ⟨sender, source, injected, header, sMac⟩ :=
            learned_direct invariant reads picked (ttl.symm.trans full) learns
          exact ⟨sender, datagram.payload, sock.trans source, injected, header, sMac⟩
      · simp only [Function.update_of_ne here] at found
        exact invariant.direct other mac peerInfo entry found full

theorem invariant_step (same : ∀ node, (config node).sendTtl = sendTtl) (live : 1 ≤ sendTtl)
    (network : Network Node) (event : NetworkEvent Node)
    (reads : ReadsAddresses config sendTtl network event)
    (invariant : Invariant config address sendTtl network) :
    Invariant config address sendTtl (step inet_ntoa config address network event) := by
  cases event with
  | deliver index node behind => exact invariant_deliver same invariant reads
  | lose index =>
    exact ⟨invariant.bounded, fun datagram member =>
      invariant.carried datagram (List.mem_of_mem_eraseIdx member), invariant.direct⟩
  | act node event => exact invariant_act same live invariant node event

/-- What moves a full-TTL entry that stays: a frame with its source, straight from the
node that injected it. -/
def MovedByInjector (address : Node → SockAddr) (sendTtl : UInt8) (network : Network Node)
    (event : NetworkEvent Node) (node : Node) (mac : Mac) (sock : SockAddr) : Prop :=
  ∃ index behind datagram sender, event = .deliver index node behind ∧
    network.inflight[index]? = some datagram ∧ datagram.ttl = sendTtl ∧
    datagram.src = address sender ∧ sock = address sender ∧
    (sender, datagram.payload) ∈ network.injected ∧ 12 ≤ datagram.payload.length ∧
    Buffer.sMac ⟨datagram.payload, []⟩ = mac

theorem moved_by_injector (invariant : Invariant config address sendTtl network)
    {event : NetworkEvent Node} (reads : ReadsAddresses config sendTtl network event) {node : Node}
    {mac : Mac} {before after : MacPeer} (entry : mac ≠ MAC_BROADCAST)
    (stored : (network.stations node).table.lookup mac = some before) (full : before.ttl = sendTtl)
    (found : ((step inet_ntoa config address network event).stations node).table.lookup mac =
      some after) (moved : after.sock ≠ before.sock) :
    MovedByInjector address sendTtl network event node mac after.sock := by
  have unmoved (kept : (network.stations node).table.lookup mac = some after) : False := by
    rw [stored, Option.some.injEq] at kept
    exact moved (by rw [kept])
  cases event with
  | lose index => exact (unmoved found).elim
  | act other event =>
    by_cases here : node = other
    · subst here
      simp only [step, Function.update_self] at found
      have acted := Station.act_acted inet_ntoa (config node) (network.stations node) event
      exact (unmoved (acted.entries mac after entry found)).elim
    · simp only [step, Function.update_of_ne here] at found
      exact (unmoved found).elim
  | deliver index other behind =>
    cases picked : network.inflight[index]? with
    | none =>
      simp only [step, picked] at found
      exact (unmoved found).elim
    | some datagram =>
      by_cases here : node = other
      · subst here
        simp only [step, picked, Function.update_self, Station.receive_table] at found
        rcases VSwitch.learnFrom_entry found with
          ⟨kept, present, sock, _⟩ | ⟨learns, rfl, sock, _, better⟩
        · rw [stored, Option.some.injEq] at present
          exact absurd (by rw [sock, present]) moved
        · obtain ⟨within, _⟩ := invariant.carried datagram (List.mem_of_getElem? picked)
          have least := better before stored
          rw [full] at least
          have ttl : datagram.ttl = sendTtl := UInt8.le_antisymm within least
          obtain ⟨sender, source, injected, header, sMac⟩ :=
            learned_direct invariant reads picked ttl learns
          exact ⟨index, behind, datagram, sender, rfl, picked, ttl, source, sock.trans source,
            injected, header, sMac⟩
      · simp only [step, picked, Function.update_of_ne here] at found
        exact (unmoved found).elim

/-- Over every run in which no node learns from a full-TTL datagram too short to hold
both addresses: an entry with the full TTL, the uplink apart, is at the address of a
node that injected a frame with its source, and while it stays, only such a frame
sent directly by its injector moves it. -/
theorem full_ttl_is_direct (inet_ntoa : SockAddr → Bytes) {config : Node → Config}
    (address : Node → SockAddr) {sendTtl : UInt8} (same : ∀ node, (config node).sendTtl = sendTtl)
    (live : 1 ≤ sendTtl) (clock : Node → Nat) {events : List (NetworkEvent Node)}
    (reads : Execution.EveryStep (step inet_ntoa config address) (ReadsAddresses config sendTtl)
      (start config clock) events) :
    let network := Execution.run (step inet_ntoa config address) (start config clock) events
    (∀ node mac peerInfo, mac ≠ MAC_BROADCAST →
      (network.stations node).table.lookup mac = some peerInfo → peerInfo.ttl = sendTtl →
      network.IsDirect address peerInfo.sock mac) ∧
    ∀ event, ReadsAddresses config sendTtl network event → ∀ node mac before after,
      mac ≠ MAC_BROADCAST → (network.stations node).table.lookup mac = some before →
      before.ttl = sendTtl →
      ((step inet_ntoa config address network event).stations node).table.lookup mac = some after →
      after.sock ≠ before.sock →
      MovedByInjector address sendTtl network event node mac after.sock := by
  intro network
  have invariant : Invariant config address sendTtl network :=
    Execution.EveryStep.preserves (invariant_step same live) (invariant_start clock) reads
  exact ⟨invariant.direct, fun event reads node mac before after entry stored full found moved =>
    moved_by_injector invariant reads entry stored full found moved⟩

/-- Two nodes that are each other's uplink. -/
def pairConfig (node : Bool) : Config where
  macLocal := if node then 0x20000 else 0x30000
  sendTtl := 8
  corePeer := if node then .inet 2 9001 else .inet 1 9001

def pairAddress (node : Bool) : SockAddr := if node then .inet 1 9001 else .inet 2 9001

def pairFrame : Bytes := [255, 255, 255, 255, 255, 255, 2, 0, 0, 0, 0, 0, 8, 0]

/-- A frame injected by one of them and learned from by the other. -/
theorem full_ttl_is_direct_pair :
    (Execution.run (step (fun _ => []) pairConfig pairAddress) (start pairConfig (fun _ => 0))
      [.act true (.pollInterface pairFrame []), .deliver 0 false []]).IsDirect pairAddress
        (.inet 1 9001) 0x20000 := by
  have injection : ReadsAddresses pairConfig 8 (start pairConfig (fun _ => 0))
      (.act true (.pollInterface pairFrame [])) := by
    intro index node behind datagram event
    cases event
  have delivery : ReadsAddresses pairConfig 8
      (step (fun _ => []) pairConfig pairAddress (start pairConfig (fun _ => 0))
        (.act true (.pollInterface pairFrame []))) (.deliver 0 false []) := by
    intro index node behind datagram event picked _ short
    cases event
    have payload : (step (fun _ => []) pairConfig pairAddress (start pairConfig (fun _ => 0))
        (.act true (.pollInterface pairFrame []))).inflight[0]?.map Datagram.payload =
        some pairFrame := by
      decide +kernel
    rw [picked, Option.map_some, Option.some.injEq] at payload
    rw [payload] at short
    exact absurd short (by decide)
  have run : Execution.EveryStep (step (fun _ => []) pairConfig pairAddress)
      (ReadsAddresses pairConfig 8) (start pairConfig (fun _ => 0))
      [.act true (.pollInterface pairFrame []), .deliver 0 false []] :=
    And.intro injection (And.intro delivery trivial)
  have full (node : Bool) : (pairConfig node).sendTtl = 8 := rfl
  obtain ⟨direct, _⟩ := @full_ttl_is_direct Bool _ (fun _ => []) pairConfig pairAddress 8 full
    (by decide) (fun _ => 0) _ run
  exact direct false 0x20000 ⟨.inet 1 9001, 8, 0⟩ (by decide) (by decide +kernel) rfl

/-- A node asks its uplink for peers before either has heard of any. The answer is
empty, with the full TTL of the question, and what lies behind the empty frame in the
asker's memory becomes a MAC at the answerer's address. Nobody has injected a frame. -/
theorem empty_peer_list_learned :
    let network := Execution.run (step (fun _ => []) pairConfig pairAddress)
      (start pairConfig (fun _ => 0))
      [.act false .sendQueryPeers, .deliver 0 true [], .act true (.handleCmd 0 .stored),
        .deliver 0 false [1, 0, 0, 0, 0, 7, 0, 0, 0, 0, 0, 0, 0, 0, 0]]
    ¬ ∀ node mac peerInfo, mac ≠ MAC_BROADCAST →
      (network.stations node).table.lookup mac = some peerInfo → peerInfo.ttl = 8 →
      network.IsDirect pairAddress peerInfo.sock mac := by
  intro network direct
  have learned : (network.stations false).table.lookup 0x70000 = some ⟨.inet 1 9001, 8, 0⟩ := by
    decide +kernel
  have silent : network.injected = [] := by
    decide +kernel
  obtain ⟨node, frame, _, injected, _⟩ := direct false 0x70000 _ (by decide) learned rfl
  rw [silent] at injected
  cases injected

end Network

end TalusVSwitch
