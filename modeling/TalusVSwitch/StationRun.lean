import TalusVSwitch.Network

namespace TalusVSwitch

/-- A decoded datagram comes in, or the node acts. -/
inductive Occurrence where
  | receive (buf : Buffer) (peer : SockAddr) (ttl : UInt8)
  | act (event : StationEvent)

namespace Station

section Machine

variable (inet_ntoa : SockAddr → Bytes) (config : Config)

/-- What becomes of the node, and what it hands to `send`. -/
def occur (station : Station) : Occurrence → Station × List Send
  | .receive buf peer ttl => (station.receive config buf peer ttl, [])
  | .act event => station.act inet_ntoa config event

def next (station : Station) (occurrence : Occurrence) : Station :=
  (station.occur inet_ntoa config occurrence).1

def sends (station : Station) (occurrence : Occurrence) : List Send :=
  (station.occur inet_ntoa config occurrence).2

end Machine

variable {inet_ntoa : SockAddr → Bytes} {config : Config} {station : Station}

@[simp] theorem next_receive (buf : Buffer) (peer : SockAddr) (ttl : UInt8) :
    station.next inet_ntoa config (.receive buf peer ttl) = station.receive config buf peer ttl := rfl

@[simp] theorem next_act (event : StationEvent) :
    station.next inet_ntoa config (.act event) = (station.act inet_ntoa config event).1 := rfl

@[simp] theorem sends_act (event : StationEvent) :
    station.sends inet_ntoa config (.act event) = (station.act inet_ntoa config event).2 := rfl

theorem start_table (config : Config) (now : Nat) : (start config now).table =
    (∅ : MacMap).addMacPeer now MAC_BROADCAST config.corePeer config.sendTtl := by
  simp only [start, table]

theorem start_uplink (config : Config) (now : Nat) :
    (start config now).table.lookup MAC_BROADCAST = some ⟨config.corePeer, config.sendTtl, now⟩ := by
  rw [start_table]
  exact MacMap.lookup_addMacPeer_absent (AList.lookup_empty _)

theorem start_lookup_ne {now : Nat} {mac : Mac} (other : mac ≠ MAC_BROADCAST) :
    (start config now).table.lookup mac = none := by
  rw [start_table, MacMap.lookup_addMacPeer_ne other]
  exact AList.lookup_empty _

/-- What a node does but receive: it keeps its uplink entry, gets no other, and takes on no
work but the fan-out of a broadcast of its own. -/
structure Acted (before after : Station) : Prop where
  uplink : ∀ peerInfo, before.table.lookup MAC_BROADCAST = some peerInfo →
    after.table.lookup MAC_BROADCAST = some peerInfo
  entries : ∀ mac peerInfo, mac ≠ MAC_BROADCAST → after.table.lookup mac = some peerInfo →
    before.table.lookup mac = some peerInfo
  pending : ∀ task ∈ after.pending, task ∈ before.pending ∨ ∃ buf, task = .broadcast buf
  commands : ∀ command ∈ after.commands, command ∈ before.commands

theorem Acted.refl (station : Station) : Acted station station :=
  ⟨fun _ found => found, fun _ _ _ found => found, fun _ queued => .inl queued,
    fun _ queued => queued⟩

theorem Acted.of_kept {after : Station} (kept : MacMap.Kept station.table after.table)
    (pending : ∀ task ∈ after.pending, task ∈ station.pending ∨ ∃ buf, task = .broadcast buf)
    (commands : ∀ command ∈ after.commands, command ∈ station.commands) :
    Acted station after := by
  refine ⟨?_, ?_, pending, commands⟩
  · intro peerInfo found
    rwa [kept.whole (MacMap.mem_of_lookup found)]
  · intro mac peerInfo other found
    rwa [kept.others mac other] at found

theorem act_acted (inet_ntoa : SockAddr → Bytes) (config : Config) (station : Station)
    (event : StationEvent) : Acted station (station.act inet_ntoa config event).1 := by
  cases event with
  | pollInterface frame behind =>
    obtain ⟨table, kept, result | ⟨peer, result⟩ | result⟩ :=
      pollInterface_cases config station ⟨frame, behind⟩
    · rw [act, result]
      exact .of_kept kept (fun _ queued => .inl queued) (fun _ queued => queued)
    · rw [act, result]
      exact .of_kept kept (fun _ queued => .inl queued) (fun _ queued => queued)
    · rw [act, result]
      refine .of_kept kept ?_ (fun _ queued => queued)
      intro task queued
      rcases List.mem_append.mp queued with before | new
      · exact .inl before
      · exact .inr ⟨_, List.mem_singleton.mp new⟩
  | resume index enumeration =>
    simp only [act]
    split
    · exact .refl station
    · rename_i task _
      obtain ⟨table, kept, result, _⟩ := resume_cases config enumeration
        { station with pending := station.pending.eraseIdx index } task
      rw [result]
      exact .of_kept kept (fun _ queued => .inl (List.mem_of_mem_eraseIdx queued))
        (fun _ queued => queued)
  | handleCmd index enumeration =>
    simp only [act]
    split
    · exact .refl station
    · exact .of_kept (.refl _) (fun _ queued => .inl queued)
        (fun _ queued => List.mem_of_mem_eraseIdx queued)
  | keepLinks | probe | sendQueryPeers | sendQueryPeerInfo => exact .refl station
  | checkMac | elapse =>
    exact .of_kept (.refl _) (fun _ queued => .inl queued) (fun _ queued => queued)
  | runTask index =>
    simp only [act, Ageing.step]
    split
    · exact .refl station
    · refine ⟨?_, ?_, fun _ queued => .inl queued, fun _ queued => queued⟩
      · intro peerInfo found
        exact MacMap.lookup_runRemoval_broadcast.trans found
      · intro mac peerInfo _ found
        exact MacMap.lookup_runRemoval found

theorem receive_pending {buf : Buffer} {peer : SockAddr} {ttl : UInt8} {task : Pending}
    (queued : task ∈ (station.receive config buf peer ttl).pending) :
    task ∈ station.pending ∨ task = .forward ⟨buf, ttl, buf.isTvsCmd⟩ peer := by
  simp only [receive, Transport.classify] at queued
  split at queued
  · exact .inl queued
  · rename_i called classified
    rcases List.mem_append.mp queued with before | new
    · exact .inl before
    · split at classified
      · cases classified
      · cases classified
        exact .inr (List.mem_singleton.mp new)

theorem receive_commands {buf : Buffer} {peer : SockAddr} {ttl : UInt8} {command : PostedCommand}
    (queued : command ∈ (station.receive config buf peer ttl).commands) :
    command ∈ station.commands ∨ command = ⟨buf, peer, ttl⟩ := by
  simp only [receive, Transport.classify] at queued
  split at queued
  · exact .inl queued
  · rename_i called classified
    rcases List.mem_append.mp queued with before | new
    · exact .inl before
    · split at classified
      · cases classified
        exact .inr (List.mem_singleton.mp new)
      · cases classified

/-- Every entry but the uplink's is at the address a frame with its MAC came from. -/
theorem entry_heard {now : Nat} {occurrences : List Occurrence} {mac : Mac} {peerInfo : MacPeer}
    (other : mac ≠ MAC_BROADCAST)
    (found : (Execution.run (next inet_ntoa config) (start config now) occurrences).table.lookup mac =
      some peerInfo) :
    ∃ buf ttl, .receive buf peerInfo.sock ttl ∈ occurrences ∧ buf.sMac = mac := by
  have heard := @Execution.run_provenance _ _ _ (next inet_ntoa config)
    (fun station sock => ∃ stored, station.table.lookup mac = some stored ∧ stored.sock = sock)
    (fun occurrence sock => ∃ buf ttl, occurrence = .receive buf sock ttl ∧ buf.sMac = mac)
    (by
      rintro station occurrence sock ⟨after, stored, rfl⟩
      cases occurrence with
      | receive buf peer ttl =>
        rw [next_receive, receive_table] at stored
        rcases VSwitch.learnFrom_entry stored with ⟨before, kept, same, _⟩ | ⟨_, same, learned, _⟩
        · exact .inl ⟨before, kept, same.symm⟩
        · exact .inr ⟨buf, ttl, by rw [learned], same.symm⟩
      | act event =>
        rw [next_act] at stored
        exact .inl ⟨after, (act_acted inet_ntoa config station event).entries mac after other stored, rfl⟩)
    _ occurrences peerInfo.sock ⟨peerInfo, found, rfl⟩
  rcases heard with ⟨initial, stored, _⟩ | ⟨_, member, buf, ttl, rfl, source⟩
  · rw [start_lookup_ne other] at stored
    cases stored
  · exact ⟨buf, ttl, member, source⟩

theorem uplink_stays (config : Config) (now : Nat) (occurrences : List Occurrence) :
    ∃ peerInfo, (Execution.run (next inet_ntoa config) (start config now) occurrences).table.lookup
      MAC_BROADCAST = some peerInfo ∧ peerInfo.sock = config.corePeer := by
  apply @Execution.run_invariant _ _ (next inet_ntoa config) (fun station =>
    ∃ peerInfo, station.table.lookup MAC_BROADCAST = some peerInfo ∧ peerInfo.sock = config.corePeer)
  · rintro station occurrence ⟨peerInfo, found, core⟩
    refine ⟨peerInfo, ?_, core⟩
    cases occurrence with
    | receive buf peer ttl =>
      rw [next_receive, receive_table, VSwitch.lookup_learnFrom_broadcast]
      exact found
    | act event =>
      rw [next_act]
      exact (act_acted inet_ntoa config station event).uplink peerInfo found
  · have found := start_uplink config now
    exact ⟨_, found, rfl⟩

/-- The keys of a table are MACs, and its addresses have a family: what the text of a peer
list can tell. -/
theorem entries_tellable {now : Nat} {occurrences : List Occurrence}
    (core : config.corePeer ≠ .unspec)
    (named : ∀ buf peer ttl, .receive buf peer ttl ∈ occurrences → peer ≠ .unspec) :
    ∀ entry ∈ (Execution.run (next inet_ntoa config) (start config now) occurrences).table.entries,
      entry.1.toNat % 65536 = 0 ∧ entry.2.sock ≠ .unspec := by
  intro entry member
  have found := AList.mem_lookup_iff.mpr member
  by_cases broadcast : entry.1 = MAC_BROADCAST
  · obtain ⟨uplink, stored, remote⟩ := @uplink_stays inet_ntoa config now occurrences
    rw [broadcast, stored, Option.mem_some_iff] at found
    rw [broadcast, ← found, remote]
    exact ⟨by decide, core⟩
  · obtain ⟨buf, ttl, received, source⟩ := entry_heard broadcast found
    rw [← source]
    exact ⟨Buffer.load64_shift_low buf 6, named buf _ ttl received⟩

end Station

end TalusVSwitch
