import TalusVSwitch.StationRun

namespace TalusVSwitch

namespace Station

section Machine

variable (inet_ntoa : SockAddr → Bytes) (config : Config)

/-- A step that sends a copy of a received frame to an address taken for its source. -/
def Returns (station : Station) (occurrence : Occurrence) : Prop :=
  ∃ index enumeration received pktRecvPeer, occurrence = .act (.resume index enumeration) ∧
    station.pending[index]? = some (.forward received pktRecvPeer) ∧
    ∃ send ∈ station.sends inet_ntoa config occurrence,
      compareSockAddr pktRecvPeer send.addr = true

/-- A step that relays a unicast frame whose destination the table has at the frame's
source. -/
def Bounces (station : Station) (occurrence : Occurrence) : Prop :=
  ∃ index enumeration received pktRecvPeer peerInfo,
    occurrence = .act (.resume index enumeration) ∧
    station.pending[index]? = some (.forward received pktRecvPeer) ∧
    received.buf.dMac ≠ config.macLocal ∧ received.buf.dMac ≠ MAC_BROADCAST ∧ received.ttl ≠ 0 ∧
    12 < received.buf.size ∧ station.table.lookup received.buf.dMac = some peerInfo ∧
    compareSockAddr pktRecvPeer peerInfo.sock = true

end Machine

variable {inet_ntoa : SockAddr → Bytes} {config : Config} {station : Station}

theorem forward_returns_iff {enumeration : Enumeration} {received : Received}
    {pktRecvPeer : SockAddr} :
    (∃ send ∈ (resume config enumeration station (.forward received pktRecvPeer)).2,
        compareSockAddr pktRecvPeer send.addr = true) ↔
      ∃ peerInfo, received.buf.dMac ≠ config.macLocal ∧ received.buf.dMac ≠ MAC_BROADCAST ∧
        received.ttl ≠ 0 ∧ 12 < received.buf.size ∧
        station.table.lookup received.buf.dMac = some peerInfo ∧
        compareSockAddr pktRecvPeer peerInfo.sock = true := by
  simp only [resume]
  constructor
  · rintro ⟨send, sent, back⟩
    rcases VSwitch.forward_cases config enumeration station.ageing.now received pktRecvPeer
        station.table with
      nothing | ⟨foreign, live, long, ⟨unicast, peerInfo, found, one⟩ | ⟨_, copies⟩⟩
    · rw [nothing] at sent
      cases sent
    · rw [one, List.mem_singleton] at sent
      rw [sent] at back
      exact ⟨peerInfo, foreign, unicast, live, long, found, back⟩
    · rw [copies] at sent
      obtain ⟨entry, _, away, rfl⟩ := mem_sendBroadcast sent
      rw [copyTo, away] at back
      cases back
  · rintro ⟨peerInfo, foreign, unicast, live, long, found, back⟩
    rw [VSwitch.forward_unicast foreign live long unicast found]
    exact ⟨_, List.mem_singleton.mpr rfl, back⟩

theorem returns_iff {occurrence : Occurrence} :
    station.Returns inet_ntoa config occurrence ↔ station.Bounces config occurrence := by
  constructor
  · rintro ⟨index, enumeration, received, pktRecvPeer, rfl, picked, send, sent, back⟩
    simp only [sends_act, act, picked] at sent
    obtain ⟨peerInfo, rest⟩ := forward_returns_iff.mp ⟨send, sent, back⟩
    exact ⟨index, enumeration, received, pktRecvPeer, peerInfo, rfl, picked, rest⟩
  · rintro ⟨index, enumeration, received, pktRecvPeer, peerInfo, rfl, picked, rest⟩
    obtain ⟨send, sent, back⟩ := (@forward_returns_iff config
      { station with pending := station.pending.eraseIdx index } enumeration received
      pktRecvPeer).mpr ⟨peerInfo, rest⟩
    refine ⟨index, enumeration, received, pktRecvPeer, rfl, picked, send, ?_, back⟩
    simpa only [sends_act, act, picked] using sent

/-- Over every run of a node, no copy of a received frame goes back to an address taken
for its source exactly when, of the unicast frames relayed, none has a destination that
the table has at its source by then. -/
theorem split_horizon_iff (inet_ntoa : SockAddr → Bytes) (config : Config) (now : Nat)
    (occurrences : List Occurrence) :
    Execution.EveryStep (next inet_ntoa config)
        (fun station occurrence => ¬ station.Returns inet_ntoa config occurrence)
        (start config now) occurrences ↔
      Execution.EveryStep (next inet_ntoa config)
        (fun station occurrence => ¬ station.Bounces config occurrence)
        (start config now) occurrences := by
  have same : (fun (station : Station) occurrence => ¬ station.Returns inet_ntoa config occurrence) =
      fun station occurrence => ¬ station.Bounces config occurrence := by
    funext station occurrence
    rw [returns_iff]
  rw [same]

/-- A node relays a frame to the host it has just heard behind the same address. -/
theorem unicast_returned :
    ¬ Execution.EveryStep (next (fun _ => []) ⟨0x30000, 8, .inet 1 9001, []⟩)
      (fun station occurrence =>
        ¬ station.Returns (fun _ => []) ⟨0x30000, 8, .inet 1 9001, []⟩ occurrence)
      (start ⟨0x30000, 8, .inet 1 9001, []⟩ 0)
      [.receive ⟨[255, 255, 255, 255, 255, 255, 2, 0, 0, 0, 0, 0, 8, 6], []⟩ (.inet 2 9001) 8,
        .receive ⟨[2, 0, 0, 0, 0, 0, 4, 0, 0, 0, 0, 0, 8, 0], []⟩ (.inet 2 9001) 8,
        .act (.resume 1 .stored)] := by
  rintro ⟨_, _, apart, _⟩
  exact apart ⟨1, .stored, ⟨⟨[2, 0, 0, 0, 0, 0, 4, 0, 0, 0, 0, 0, 8, 0], []⟩, 8, false⟩, .inet 2 9001,
    rfl, by decide +kernel,
    ⟨[2, 0, 0, 0, 0, 0, 4, 0, 0, 0, 0, 0, 8, 0], .inet 2 9001, 7⟩, by decide +kernel, by decide⟩

theorem bounces_heard {now : Nat} {occurrences : List Occurrence} {occurrence : Occurrence}
    (bounces : (Execution.run (next inet_ntoa config) (start config now) occurrences).Bounces config
      occurrence) :
    ∃ received pktRecvPeer, Pending.forward received pktRecvPeer ∈
        (Execution.run (next inet_ntoa config) (start config now) occurrences).pending ∧
      ∃ buf peer ttl, .receive buf peer ttl ∈ occurrences ∧ buf.sMac = received.buf.dMac ∧
        compareSockAddr pktRecvPeer peer = true := by
  obtain ⟨index, _, received, pktRecvPeer, peerInfo, rfl, picked, _, unicast, _, _, found, back⟩ :=
    bounces
  obtain ⟨buf, ttl, heard, source⟩ := entry_heard unicast found
  exact ⟨received, pktRecvPeer, List.mem_of_getElem? picked, buf, peerInfo.sock, ttl, heard, source,
    back⟩

end Station

end TalusVSwitch
