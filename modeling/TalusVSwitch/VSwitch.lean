import TalusVSwitch.Transport
import TalusVSwitch.Broadcast

namespace TalusVSwitch

/-- The parts of `Config` that are set in `main` and read by the handlers. -/
structure Config where
  macLocal : Mac
  sendTtl : UInt8
  corePeer : SockAddr
  localIp : Bytes := []
deriving DecidableEq, Repr

/-- The table a handler leaves, the frames it writes to the TAP, and what it sends. -/
structure Reaction where
  table : MacMap
  tap : List Bytes
  sends : List Send

namespace VSwitch

variable (config : Config) (enumeration : Enumeration) (now : Nat)

/-- Whether a received frame is written to the TAP. -/
def writesTap (received : Received) : Bool :=
  !received.isTvsCmd &&
    ((received.buf.dMac == config.macLocal || received.buf.dMac == MAC_BROADCAST) &&
      received.buf.sMac != config.macLocal && 12 < received.buf.size)

/-- The learning section of the receive lambda. -/
def learn (received : Received) (pktRecvPeer : SockAddr) (table : MacMap) : MacMap :=
  if !received.isTvsCmd &&
      (received.buf.sMac != MAC_BROADCAST && received.buf.sMac != config.macLocal) then
    table.addMacPeer now received.buf.sMac pktRecvPeer received.ttl
  else table

/-- The table a decoded datagram leaves, before any of it is forwarded. -/
def learnFrom (buf : Buffer) (pktRecvPeer : SockAddr) (ttl : UInt8) (table : MacMap) : MacMap :=
  match (Transport.classify buf ttl).callback with
  | none => table
  | some received => learn config now received pktRecvPeer table

/-- The forwarding part of the receive lambda. -/
def forward (received : Received) (pktRecvPeer : SockAddr) (table : MacMap) :
    MacMap × List Send :=
  if received.buf.dMac == config.macLocal then (table, [])
  else if received.ttl == 0 then (table, [])
  else if received.buf.size ≤ 12 then (table, [])
  else if received.buf.dMac != MAC_BROADCAST then
    match table.getMacPeer now received.buf.dMac with
    | (forwardPeer, true, table) =>
      (table, [⟨received.buf.bytes, forwardPeer, received.ttl - 1⟩])
    | (_, false, table) => (table, [])
  else
    (table, sendBroadcast (enumeration.order table) received.buf pktRecvPeer received.ttl)

/-- The receive lambda. The table is locked twice, for learning and for forwarding;
`interleaved` is what other threads do to it in between. -/
def onPeerInput (interleaved : MacMap → MacMap) (received : Received) (pktRecvPeer : SockAddr)
    (table : MacMap) : Reaction :=
  let learned := interleaved (learn config now received pktRecvPeer table)
  let forwarded := forward config enumeration now received pktRecvPeer learned
  { table := forwarded.1
    tap := if writesTap config received then [received.buf.bytes] else []
    sends := forwarded.2 }

/-- `pollInterface`, for the frame `TapInterface::read` returned. -/
def pollInterface (interleaved : MacMap → MacMap) (buf : Buffer) (table : MacMap) :
    MacMap × List Send :=
  if buf.size = 0 then (table, [])
  else
    match table.getMacPeer now buf.dMac with
    | (peer, _, table) =>
      if peer.inet_port != 0 then (table, [⟨buf.bytes, peer, config.sendTtl⟩])
      else if buf.dMac == MAC_BROADCAST then
        let table := interleaved table
        (table, sendBroadcast (enumeration.order table) buf .unspec config.sendTtl)
      else (table, [])

/-- A datagram that `setOnRead` has decoded, through the receive lambda. -/
def onDatagram (interleaved : MacMap → MacMap) (buf : Buffer) (pktRecvPeer : SockAddr) (ttl : UInt8)
    (table : MacMap) : Reaction :=
  match (Transport.classify buf ttl).callback with
  | none => ⟨table, [], []⟩
  | some received => onPeerInput config enumeration now interleaved received pktRecvPeer table

/-- Which frames are learned from. -/
structure Learns (buf : Buffer) : Prop where
  addressed : buf.dMac ≠ 0
  data : buf.isTvsCmd = false
  source : buf.sMac ≠ MAC_BROADCAST
  foreign : buf.sMac ≠ config.macLocal

variable {config enumeration now}
variable {interleaved : MacMap → MacMap} {received : Received} {pktRecvPeer : SockAddr}
  {table : MacMap} {buf : Buffer} {ttl : UInt8}

theorem learnFrom_of_learns (learns : Learns config buf) :
    learnFrom config now buf pktRecvPeer ttl table =
      table.addMacPeer now buf.sMac pktRecvPeer ttl := by
  simp [learnFrom, Transport.classify, learns.addressed, learn, learns.data, learns.source,
    learns.foreign]

theorem learnFrom_of_not_learns (ignored : ¬ Learns config buf) :
    learnFrom config now buf pktRecvPeer ttl table = table := by
  by_cases addressed : buf.dMac = 0
  · simp [learnFrom, Transport.classify, addressed]
  · simp only [learnFrom, Transport.classify, addressed, if_false, learn]
    rw [if_neg]
    simp only [Bool.and_eq_true, Bool.not_eq_true', bne_iff_ne]
    rintro ⟨data, source, foreign⟩
    exact ignored ⟨addressed, data, source, foreign⟩

theorem lookup_learnFrom_broadcast :
    (learnFrom config now buf pktRecvPeer ttl table).lookup MAC_BROADCAST =
      table.lookup MAC_BROADCAST := by
  by_cases learns : Learns config buf
  · rw [learnFrom_of_learns learns, MacMap.lookup_addMacPeer_ne learns.source.symm]
  · rw [learnFrom_of_not_learns learns]

theorem learnFrom_entry {mac : Mac} {after : MacPeer}
    (found : (learnFrom config now buf pktRecvPeer ttl table).lookup mac = some after) :
    (∃ before, table.lookup mac = some before ∧ after.sock = before.sock ∧
      after.ttl = before.ttl) ∨
    (Learns config buf ∧ mac = buf.sMac ∧ after.sock = pktRecvPeer ∧ after.ttl = ttl ∧
      ∀ before, table.lookup mac = some before → before.ttl ≤ ttl) := by
  by_cases learns : Learns config buf
  · rw [learnFrom_of_learns learns] at found
    by_cases same : mac = buf.sMac
    · subst same
      rw [MacMap.lookup_addMacPeer, Option.some.injEq] at found
      cases stored : table.lookup buf.sMac with
      | none =>
        rw [stored, Option.getD_none, MacPeer.learn_fresh] at found
        subst found
        exact .inr ⟨learns, rfl, rfl, rfl, fun before present => by cases present⟩
      | some before =>
        rw [stored, Option.getD_some] at found
        rcases before.learn_cases now pktRecvPeer ttl with
          ⟨_, result⟩ | ⟨_, better, result⟩ | ⟨_, _, result⟩
        · rw [result] at found
          subst found
          exact .inl ⟨before, rfl, rfl, rfl⟩
        · rw [result] at found
          subst found
          refine .inr ⟨learns, rfl, rfl, rfl, fun other present => ?_⟩
          cases present
          exact better
        · rw [result] at found
          subst found
          exact .inl ⟨before, rfl, rfl, rfl⟩
    · rw [MacMap.lookup_addMacPeer_ne same] at found
      exact .inl ⟨after, found, rfl, rfl⟩
  · rw [learnFrom_of_not_learns learns] at found
    exact .inl ⟨after, found, rfl, rfl⟩

theorem forward_unicast (foreign : received.buf.dMac ≠ config.macLocal) (live : received.ttl ≠ 0)
    (long : 12 < received.buf.size) (unicast : received.buf.dMac ≠ MAC_BROADCAST)
    {peerInfo : MacPeer} (found : table.lookup received.buf.dMac = some peerInfo) :
    forward config enumeration now received pktRecvPeer table =
      (table, [⟨received.buf.bytes, peerInfo.sock, received.ttl - 1⟩]) := by
  simp [forward, foreign, live, Nat.not_le.mpr long, unicast, MacMap.getMacPeer_found found]

theorem forward_broadcast (foreign : received.buf.dMac ≠ config.macLocal) (live : received.ttl ≠ 0)
    (long : 12 < received.buf.size) (broadcast : received.buf.dMac = MAC_BROADCAST) :
    forward config enumeration now received pktRecvPeer table =
      (table, sendBroadcast (enumeration.order table) received.buf pktRecvPeer received.ttl) := by
  rw [broadcast] at foreign
  simp [forward, foreign, live, Nat.not_le.mpr long, broadcast]

/-- What the forwarding part can send. -/
theorem forward_cases (config : Config) (enumeration : Enumeration) (now : Nat)
    (received : Received) (pktRecvPeer : SockAddr) (table : MacMap) :
    (forward config enumeration now received pktRecvPeer table).2 = [] ∨
    (received.buf.dMac ≠ config.macLocal ∧ received.ttl ≠ 0 ∧ 12 < received.buf.size ∧
      ((received.buf.dMac ≠ MAC_BROADCAST ∧
        ∃ peerInfo, table.lookup received.buf.dMac = some peerInfo ∧
          forward config enumeration now received pktRecvPeer table =
            (table, [⟨received.buf.bytes, peerInfo.sock, received.ttl - 1⟩])) ∨
      (received.buf.dMac = MAC_BROADCAST ∧
        forward config enumeration now received pktRecvPeer table =
          (table, sendBroadcast (enumeration.order table) received.buf pktRecvPeer
            received.ttl)))) := by
  by_cases own : received.buf.dMac = config.macLocal
  · exact .inl (by simp [forward, own])
  by_cases spent : received.ttl = 0
  · exact .inl (by simp [forward, own, spent])
  by_cases short : received.buf.size ≤ 12
  · exact .inl (by simp [forward, own, spent, short])
  by_cases broadcast : received.buf.dMac = MAC_BROADCAST
  · exact .inr ⟨own, spent, Nat.lt_of_not_le short, .inr ⟨broadcast,
      forward_broadcast own spent (Nat.lt_of_not_le short) broadcast⟩⟩
  · cases found : table.lookup received.buf.dMac with
    | none =>
      left
      simp only [forward, MacMap.getMacPeer, found]
      cases table.lookup MAC_BROADCAST <;> simp [own, spent, short, broadcast]
    | some peerInfo =>
      exact .inr ⟨own, spent, Nat.lt_of_not_le short, .inl ⟨broadcast, peerInfo, rfl,
        forward_unicast own spent (Nat.lt_of_not_le short) broadcast found⟩⟩

theorem forward_kept :
    MacMap.Kept table (forward config enumeration now received pktRecvPeer table).1 := by
  have kept := @MacMap.kept_getMacPeer table now received.buf.dMac
  simp only [forward]
  split_ifs <;> try exact MacMap.Kept.refl table
  rcases looked : table.getMacPeer now received.buf.dMac with ⟨forwardPeer, got, after⟩
  rw [looked] at kept
  cases got <;> exact kept

theorem forward_sends_now (now' : Nat) :
    (forward config enumeration now received pktRecvPeer table).2 =
      (forward config enumeration now' received pktRecvPeer table).2 := by
  simp only [forward, MacMap.getMacPeer]
  cases table.lookup received.buf.dMac <;> cases table.lookup MAC_BROADCAST <;> split_ifs <;> rfl

theorem forward_ttl {send : Send}
    (sent : send ∈ (forward config enumeration now received pktRecvPeer table).2) :
    send.ttl < received.ttl := by
  rcases forward_cases config enumeration now received pktRecvPeer table with
    nothing | ⟨_, live, _, ⟨_, peerInfo, _, one⟩ | ⟨_, copies⟩⟩
  · simp [nothing] at sent
  · simp only [one, List.mem_singleton] at sent
    rw [sent]
    exact ttl_pred_lt live
  · simp only [copies] at sent
    obtain ⟨entry, _, _, rfl⟩ := mem_sendBroadcast sent
    exact broadcastTtl_lt live

theorem onDatagram_tap :
    (onDatagram config enumeration now interleaved buf pktRecvPeer ttl table).tap =
      if buf.dMac ≠ 0 ∧ writesTap config ⟨buf, ttl, buf.isTvsCmd⟩ then [buf.bytes] else [] := by
  by_cases addressed : buf.dMac = 0 <;>
    simp [onDatagram, Transport.classify, addressed, onPeerInput]

/-- What a decoded datagram can set off, and under which guards. -/
theorem onDatagram_cases (config : Config) (enumeration : Enumeration) (now : Nat)
    (interleaved : MacMap → MacMap) (buf : Buffer) (pktRecvPeer : SockAddr) (ttl : UInt8)
    (table : MacMap) :
    (onDatagram config enumeration now interleaved buf pktRecvPeer ttl table).sends = [] ∨
    (buf.dMac ≠ config.macLocal ∧ ttl ≠ 0 ∧ 12 < buf.size ∧
      let found := interleaved (learn config now ⟨buf, ttl, buf.isTvsCmd⟩ pktRecvPeer table)
      (buf.dMac ≠ MAC_BROADCAST ∧ ∃ peerInfo, found.lookup buf.dMac = some peerInfo ∧
        (onDatagram config enumeration now interleaved buf pktRecvPeer ttl table).sends =
          [⟨buf.bytes, peerInfo.sock, ttl - 1⟩]) ∨
      (buf.dMac = MAC_BROADCAST ∧
        (onDatagram config enumeration now interleaved buf pktRecvPeer ttl table).sends =
          sendBroadcast (enumeration.order found) buf pktRecvPeer ttl)) := by
  by_cases addressed : buf.dMac = 0
  · exact .inl (by simp [onDatagram, Transport.classify, addressed])
  have called : (Transport.classify buf ttl).callback = some ⟨buf, ttl, buf.isTvsCmd⟩ := by
    simp [Transport.classify, addressed]
  rcases forward_cases config enumeration now ⟨buf, ttl, buf.isTvsCmd⟩ pktRecvPeer
      (interleaved (learn config now ⟨buf, ttl, buf.isTvsCmd⟩ pktRecvPeer table)) with
    nothing | ⟨foreign, live, long, ⟨unicast, peerInfo, found, sent⟩ | ⟨broadcast, sent⟩⟩
  · exact .inl (by simpa only [onDatagram, called, onPeerInput] using nothing)
  · refine .inr ⟨foreign, live, long, .inl ⟨unicast, peerInfo, found, ?_⟩⟩
    simp only [onDatagram, called, onPeerInput, sent]
  · refine .inr ⟨foreign, live, long, .inr ⟨broadcast, ?_⟩⟩
    simp only [onDatagram, called, onPeerInput, sent]

/-- What lies in memory behind a frame with both addresses decides nothing. -/
theorem onDatagram_congr {bytes behind behind' : Bytes} (header : 12 ≤ bytes.length) :
    onDatagram config enumeration now interleaved ⟨bytes, behind⟩ pktRecvPeer ttl table =
      onDatagram config enumeration now interleaved ⟨bytes, behind'⟩ pktRecvPeer ttl table := by
  have destination := @Buffer.dMac_congr bytes behind behind' header
  have source := @Buffer.sMac_congr bytes behind behind' header
  have command := @Buffer.isTvsCmd_congr bytes behind behind' header
  by_cases addressed : Buffer.dMac ⟨bytes, behind'⟩ = 0
  · simp only [onDatagram, Transport.classify, destination, addressed, if_true]
  · have forwarded (found : MacMap) (isTvsCmd : Bool) :
        forward config enumeration now ⟨⟨bytes, behind⟩, ttl, isTvsCmd⟩ pktRecvPeer found =
          forward config enumeration now ⟨⟨bytes, behind'⟩, ttl, isTvsCmd⟩ pktRecvPeer found := by
      simp only [forward, destination]
      rfl
    have learned (isTvsCmd : Bool) : learn config now ⟨⟨bytes, behind⟩, ttl, isTvsCmd⟩ pktRecvPeer table =
        learn config now ⟨⟨bytes, behind'⟩, ttl, isTvsCmd⟩ pktRecvPeer table := by
      simp only [learn, source]
    have written (isTvsCmd : Bool) : writesTap config ⟨⟨bytes, behind⟩, ttl, isTvsCmd⟩ =
        writesTap config ⟨⟨bytes, behind'⟩, ttl, isTvsCmd⟩ := by
      simp only [writesTap, source, destination]
      rfl
    simp only [onDatagram, Transport.classify, destination, addressed, if_false, onPeerInput, command,
      forwarded, learned, written]

theorem onDatagram_broadcast (broadcast : buf.dMac = MAC_BROADCAST)
    (foreign : config.macLocal ≠ MAC_BROADCAST) (live : ttl ≠ 0) (long : 12 < buf.size) :
    (onDatagram config enumeration now interleaved buf pktRecvPeer ttl table).sends =
      sendBroadcast (enumeration.order
        (interleaved (learn config now ⟨buf, ttl, buf.isTvsCmd⟩ pktRecvPeer table)))
        buf pktRecvPeer ttl := by
  have addressed : buf.dMac ≠ 0 := by
    rw [broadcast]
    decide
  have called : (Transport.classify buf ttl).callback = some ⟨buf, ttl, buf.isTvsCmd⟩ := by
    simp [Transport.classify, addressed]
  have away : buf.dMac ≠ config.macLocal := fun own => foreign (own.symm.trans broadcast)
  have forwarded := @forward_broadcast config enumeration now ⟨buf, ttl, buf.isTvsCmd⟩ pktRecvPeer
    (interleaved (learn config now ⟨buf, ttl, buf.isTvsCmd⟩ pktRecvPeer table)) away live long broadcast
  simp only [onDatagram, called, onPeerInput, forwarded]

theorem pollInterface_of_port (nonempty : buf.size ≠ 0)
    (port : (table.getMacPeer now buf.dMac).1.inet_port ≠ 0) :
    pollInterface config enumeration now interleaved buf table =
      ((table.getMacPeer now buf.dMac).2.2,
        [⟨buf.bytes, (table.getMacPeer now buf.dMac).1, config.sendTtl⟩]) := by
  simp [pollInterface, nonempty, port]

theorem pollInterface_broadcast (nonempty : buf.size ≠ 0)
    (noPort : (table.getMacPeer now buf.dMac).1.inet_port = 0) (broadcast : buf.dMac = MAC_BROADCAST) :
    pollInterface config enumeration now interleaved buf table =
      (interleaved (table.getMacPeer now buf.dMac).2.2,
        sendBroadcast (enumeration.order (interleaved (table.getMacPeer now buf.dMac).2.2)) buf
          .unspec config.sendTtl) := by
  rw [broadcast] at noPort
  simp [pollInterface, nonempty, noPort, broadcast]

theorem pollInterface_cases (config : Config) (enumeration : Enumeration) (now : Nat)
    (interleaved : MacMap → MacMap) (buf : Buffer) (table : MacMap) :
    (pollInterface config enumeration now interleaved buf table).2 = [] ∨
    ((table.getMacPeer now buf.dMac).1.inet_port ≠ 0 ∧
      pollInterface config enumeration now interleaved buf table =
        ((table.getMacPeer now buf.dMac).2.2,
          [⟨buf.bytes, (table.getMacPeer now buf.dMac).1, config.sendTtl⟩])) ∨
    (buf.dMac = MAC_BROADCAST ∧
      pollInterface config enumeration now interleaved buf table =
        (interleaved (table.getMacPeer now buf.dMac).2.2,
          sendBroadcast (enumeration.order (interleaved (table.getMacPeer now buf.dMac).2.2)) buf
            .unspec config.sendTtl)) := by
  by_cases empty : buf.size = 0
  · exact .inl (by simp [pollInterface, empty])
  by_cases port : (table.getMacPeer now buf.dMac).1.inet_port = 0
  · by_cases broadcast : buf.dMac = MAC_BROADCAST
    · exact .inr (.inr ⟨broadcast, pollInterface_broadcast empty port broadcast⟩)
    · exact .inl (by simp [pollInterface, empty, port, broadcast])
  · exact .inr (.inl ⟨port, pollInterface_of_port empty port⟩)

end VSwitch

end TalusVSwitch
