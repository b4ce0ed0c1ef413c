import TalusVSwitch.ControlFrames
import TalusVSwitch.KnownPeers
import TalusVSwitch.ResponseText

/-! Peer discovery from end to end: what a core answers, in however many responses, makes the
node that asked probe every peer it has no other way to than its uplink. -/

namespace TalusVSwitch

universe u

namespace VSCtrlHelper

/-- Frames for the MAC go to the uplink. -/
def Relayed (config : Config) (station : Station) (mac : Mac) : Prop :=
  compareSockAddr (station.table.getMacPeer station.ageing.now mac).1 config.corePeer = true

instance (config : Config) (station : Station) (mac : Mac) : Decidable (Relayed config station mac) :=
  inferInstanceAs (Decidable (_ = true))

/-- A probe of an entry, under its MAC and to its endpoint. -/
def ProbeOf (entry : MacEntry) (probe : Probe) : Prop :=
  probe.mac = entry.1 ∧ compareSockAddr probe.peer entry.2.sock = true

/-- An entry whose text reads back. -/
structure Readable (entry : MacEntry) : Prop where
  key : entry.1.toNat % 65536 = 0
  named : entry.2.sock ≠ .unspec

variable {inet : InetText} {config : Config} {entry : MacEntry}

theorem itemText_fields (documented : inet.Documented) (readable : Readable entry) :
    ∃ macText addr port peer,
      split (itemText (SockUtil.inet_ntoa inet) entry) 45 = [macText, addr, port] ∧
      macToUint64 macText = some entry.1 ∧
      SockUtil.make_sockaddr inet (cStr addr) (toUInt16 (atoi (cStr port))) = some peer ∧
      compareSockAddr peer entry.2.sock = true := by
  have plain := SockUtil.plain_inet_ntoa documented readable.named
  obtain ⟨peer, made, same⟩ := SockUtil.make_sockaddr_inet_ntoa documented readable.named
  obtain ⟨endpoint, reached⟩ := exists_endpoint readable.named
  refine ⟨_, _, _, peer, split_itemText plain, macToUint64_uint64ToMacStr readable.key, ?_,
    compareSockAddr_of_endpoint (same.trans reached) reached⟩
  rw [cStr_of_notMem plain.noNul, atoi_port, made]

theorem not_throws_itemText (documented : inet.Documented) (readable : Readable entry) :
    ¬ Throws inet (itemText (SockUtil.inet_ntoa inet) entry) := by
  obtain ⟨macText, addr, port, peer, fields, read, made, _⟩ := itemText_fields documented readable
  rw [throws_iff fields]
  rintro (unread | ⟨mac, _, _, foreign⟩)
  · rw [read] at unread
    cases unread
  · rw [make_sockaddr_eq_none.mpr foreign] at made
    cases made

theorem examineItem_itemText (documented : inet.Documented) (readable : Readable entry)
    (told : listed entry = true) (other : entry.1 ≠ config.macLocal) {station : Station}
    (relayed : Relayed config station entry.1) :
    ∃ probe after, examineItem inet config station.ageing.now station.table
      (itemText (SockUtil.inet_ntoa inet) entry) = some (some probe, after) ∧ ProbeOf entry probe := by
  obtain ⟨macText, addr, port, peer, fields, read, made, same⟩ := itemText_fields documented readable
  have unicast : entry.1 ≠ MAC_BROADCAST := by
    simp only [listed, Bool.and_eq_true, bne_iff_ne] at told
    exact told.2
  have asks : Asks inet config station.ageing.now station.table
      (itemText (SockUtil.inet_ntoa inet) entry) ⟨entry.1, peer⟩ :=
    (asks_iff fields).mpr ⟨read, unicast, other, made, relayed⟩
  rcases examineItem_cases inet config station.ageing.now station.table
    (itemText (SockUtil.inet_ntoa inet) entry) with
    ⟨throws, _⟩ | ⟨_, probe, after, examined, _, asked⟩
  · exact absurd throws (not_throws_itemText documented readable)
  · rw [(asked ⟨entry.1, peer⟩).mpr asks] at examined
    exact ⟨⟨entry.1, peer⟩, after, examined, rfl, same⟩

/-- Items of which none throws, with this one among them. -/
structure Lists (inet : InetText) (item : Bytes) (items : List Bytes) : Prop where
  member : item ∈ items
  clear : ∀ other ∈ items, ¬ Throws inet other

/-- Every listed entry is told of in a response that reaches the handler of peer lists. -/
theorem exists_response (documented : inet.Documented) (noComma : 44 ∉ macBytes config.macLocal)
    {order : List MacEntry} (readable : ∀ entry ∈ order, Readable entry) (stored : entry ∈ order)
    (told : listed entry = true) (peer : SockAddr) (ttl : UInt8) :
    ∃ send ∈ OnQueryPeers (SockUtil.inet_ntoa inet) config order peer ttl,
      Dispatched config .ReQueryPeers send.buf ∧
      Lists inet (itemText (SockUtil.inet_ntoa inet) entry) (itemsOf send.buf) := by
  have packed := @Packing.pack_flatten _ (full (SockUtil.inet_ntoa inet) config) []
    (order.filter listed)
  have inside : entry ∈ (Packing.pack (full (SockUtil.inet_ntoa inet) config) []
      (order.filter listed)).flatten := by
    rw [packed, List.nil_append]
    exact List.mem_filter.mpr ⟨stored, told⟩
  obtain ⟨chunk, member, here⟩ := List.mem_flatten.mp inside
  refine ⟨⟨response (SockUtil.inet_ntoa inet) config chunk, peer, ttl⟩, ?_,
    dispatched_response (List.ne_nil_of_mem here), ?_⟩
  · rw [onQueryPeers_eq]
    exact List.mem_map_of_mem member
  · have items := itemsOf_response noComma (SockUtil.inet_ntoa_noComma documented) chunk
    refine ⟨by rw [items]; exact List.mem_map_of_mem here, ?_⟩
    rw [items]
    rintro _ listing
    obtain ⟨other, beside, rfl⟩ := List.mem_map.mp listing
    have whole : other ∈ order.filter listed := by
      rw [← List.nil_append (order.filter listed), ← packed]
      exact List.mem_flatten.mpr ⟨chunk, member, beside⟩
    exact not_throws_itemText documented (readable other (List.mem_of_mem_filter whole))

end VSCtrlHelper

namespace Station

variable {inet_ntoa : SockAddr → Bytes} {config : Config} {station : Station}

theorem commands_act {command : PostedCommand} (queued : command ∈ station.commands)
    (event : StationEvent) :
    command ∈ (station.act inet_ntoa config event).1.commands ∨
      ∃ index enumeration, event = .handleCmd index enumeration ∧
        station.commands[index]? = some command := by
  cases event with
  | pollInterface frame behind =>
    left
    obtain ⟨table, kept, result | ⟨peer, result⟩ | result⟩ :=
      pollInterface_cases config station ⟨frame, behind⟩
    all_goals
      rw [act, result]
      exact queued
  | resume index enumeration =>
    left
    simp only [act]
    split
    · exact queued
    · rename_i task _
      obtain ⟨table, kept, result, _⟩ := resume_cases config enumeration
        { station with pending := station.pending.eraseIdx index } task
      rw [result]
      exact queued
  | handleCmd index enumeration =>
    simp only [act]
    cases picked : station.commands[index]? with
    | none => exact .inl queued
    | some first =>
      by_cases same : first = command
      · subst same
        exact .inr ⟨index, enumeration, rfl, picked⟩
      · left
        obtain ⟨place, found⟩ := List.mem_iff_getElem?.mp queued
        refine List.mem_eraseIdx_iff_getElem?.mpr ⟨place, ?_, found⟩
        rintro rfl
        rw [picked] at found
        exact same (Option.some.inj found)
  | keepLinks | probe | sendQueryPeers | sendQueryPeerInfo | checkMac | runTask | elapse =>
    exact .inl queued

theorem commands_receive {command : PostedCommand} (queued : command ∈ station.commands)
    (buf : Buffer) (peer : SockAddr) (ttl : UInt8) :
    command ∈ (station.receive config buf peer ttl).commands := by
  simp only [receive]
  split
  · exact queued
  · exact List.mem_append_left _ queued

end Station

namespace Daemon

open VSCtrlHelper

variable {Poller : Type u} {inet : InetText} {inet_ntoa : SockAddr → Bytes} {config : Config}
  {daemon : Daemon Poller}

/-- The node has an item still to examine, in a command it has not handled or in a list it
has not been through. -/
inductive Owes (inet : InetText) (item : Bytes) (daemon : Daemon Poller) : Prop where
  | posted (command : PostedCommand) (queued : command ∈ daemon.station.commands)
      (dispatched : commandOf command.buf = some .ReQueryPeers)
      (lists : Lists inet item (itemsOf command.buf.bytes))
  | examining (items : List Bytes) (begun : items ∈ daemon.examining) (lists : Lists inet item items)

theorem Owes.congr {after : Daemon Poller} {item : Bytes} (owes : Owes inet item daemon)
    (commands : ∀ command ∈ daemon.station.commands, command ∈ after.station.commands)
    (examining : ∀ items ∈ daemon.examining, items ∈ after.examining) : Owes inet item after := by
  cases owes with
  | posted command queued dispatched lists =>
    exact .posted command (commands command queued) dispatched lists
  | examining items begun lists => exact .examining items (examining items begun) lists

theorem Owes.act {event : StationEvent} {item : Bytes} (owes : Owes inet item daemon)
    (other : ∀ index enumeration, event ≠ .handleCmd index enumeration) :
    Owes inet item (daemon.act inet_ntoa config event) := by
  refine owes.congr (fun command queued => ?_) (fun _ begun => begun)
  rcases Station.commands_act queued event with kept | ⟨index, enumeration, rfl, _⟩
  · exact kept
  · exact absurd rfl (other index enumeration)

variable [DecidableEq Poller]

theorem startups_quiet {enableP2p : Bool} {event : StationEvent}
    (listed : Startup.act event ∈ TalusVSwitch.startups enableP2p) (index : Nat) (enumeration : Enumeration) :
    event ≠ .handleCmd index enumeration := by
  rintro rfl
  cases enableP2p <;> simp [TalusVSwitch.startups] at listed

theorem owes_handleCmd {index : Nat} {enumeration : Enumeration} {item : Bytes}
    (owes : Owes inet item daemon) :
    Owes inet item (daemon.step inet inet_ntoa config (.handleCmd index enumeration)) := by
  cases owes with
  | examining items begun lists => exact .examining items (List.mem_append_left _ begun) lists
  | posted command queued dispatched lists =>
    rcases @Station.commands_act inet_ntoa config _ command queued (.handleCmd index enumeration) with
      kept | ⟨_, _, same, picked⟩
    · exact .posted command kept dispatched lists
    · cases same
      refine .examining _ (List.mem_append_right _ ?_) lists
      simp [picked, peerList, dispatched]

/-- An item still to examine stays so until it is examined; one that tells of an entry sets off
a probe of it then. -/
theorem owes_examineItem (documented : inet.Documented) {entry : MacEntry}
    (readable : Readable entry) (told : listed entry = true) (other : entry.1 ≠ config.macLocal)
    (relayed : Relayed config daemon.station entry.1) {index : Nat} {poller : Poller}
    (owes : Owes inet (itemText (SockUtil.inet_ntoa inet) entry) daemon) :
    Owes inet (itemText (SockUtil.inet_ntoa inet) entry)
        (daemon.step inet inet_ntoa config (.examineItem index poller)) ∨
      ∃ probe ∈ daemon.probes inet config (.examineItem index poller), ProbeOf entry probe := by
  cases owes with
  | posted command queued dispatched lists =>
    left
    refine .posted command ?_ dispatched lists
    simp only [step]
    split <;> exact queued
  | examining items begun lists =>
    obtain ⟨place, there⟩ := List.mem_iff_getElem?.mp begun
    by_cases here : place = index
    · subst here
      cases items with
      | nil => cases lists.member
      | cons first rest =>
        have clear := lists.clear first List.mem_cons_self
        by_cases same : first = itemText (SockUtil.inet_ntoa inet) entry
        · right
          obtain ⟨probe, after, examined, probes⟩ :=
            examineItem_itemText documented readable told other relayed
          refine ⟨probe, ?_, probes⟩
          simp [Daemon.probes, Daemon.examined, there, same, examined]
        · left
          have later : Lists inet (itemText (SockUtil.inet_ntoa inet) entry) rest :=
            ⟨(List.mem_cons.mp lists.member).resolve_left (Ne.symm same),
              fun item inside => lists.clear item (List.mem_cons_of_mem _ inside)⟩
          obtain ⟨inside, _⟩ := List.getElem?_eq_some_iff.mp there
          have kept : rest ∈ daemon.examining.set place rest :=
            List.mem_of_getElem? (List.getElem?_set_self inside)
          rcases examineItem_cases inet config daemon.station.ageing.now daemon.station.table first with
            ⟨throws, _⟩ | ⟨_, probe, after, examined, _⟩
          · exact absurd throws clear
          · have shown : daemon.examined inet config place = some (probe, after, rest) := by
              simp [Daemon.examined, there, examined]
            refine .examining rest ?_ later
            cases probe <;> simpa only [step, shown] using kept
    · left
      refine .examining items ?_ lists
      simp only [step]
      have shorter : items ∈ daemon.examining.eraseIdx index :=
        List.mem_eraseIdx_iff_getElem?.mpr ⟨place, here, there⟩
      have replaced (rest : List Bytes) : items ∈ daemon.examining.set index rest := by
        apply @List.mem_of_getElem? _ _ place
        rw [List.getElem?_set_ne (Ne.symm here), there]
      split
      · exact shorter
      · exact replaced _
      · exact replaced _

/-- What a node owes it pays, by a probe, or it knows another way by then. -/
theorem owes_step (documented : inet.Documented) {entry : MacEntry} (readable : Readable entry)
    (told : listed entry = true) (other : entry.1 ≠ config.macLocal) {enableP2p : Bool}
    (daemon : Daemon Poller) (event : DaemonEvent Poller)
    (pending : daemon.startups ⊆ TalusVSwitch.startups enableP2p ∧
      Owes inet (itemText (SockUtil.inet_ntoa inet) entry) daemon) :
    ((daemon.step inet inet_ntoa config event).startups ⊆ TalusVSwitch.startups enableP2p ∧
        Owes inet (itemText (SockUtil.inet_ntoa inet) entry)
          (daemon.step inet inet_ntoa config event)) ∨
      ((∃ probe ∈ daemon.probes inet config event, ProbeOf entry probe) ∨
        ¬ Relayed config daemon.station entry.1) := by
  obtain ⟨begun, owes⟩ := pending
  rw [← or_assoc]
  by_cases relayed : Relayed config daemon.station entry.1
  swap
  · exact .inr relayed
  left
  have fewer : (daemon.step inet inet_ntoa config event).startups ⊆ TalusVSwitch.startups enableP2p :=
    List.Subset.trans (startups_step event) begun
  suffices Owes inet (itemText (SockUtil.inet_ntoa inet) entry)
      (daemon.step inet inet_ntoa config event) ∨
      ∃ probe ∈ daemon.probes inet config event, ProbeOf entry probe from
    this.imp_left (fun owes => ⟨fewer, owes⟩)
  cases event with
  | examineItem index poller => exact owes_examineItem documented readable told other relayed owes
  | handleCmd index enumeration => exact .inl (owes_handleCmd owes)
  | main poller =>
    left
    simp only [step]
    cases startups : daemon.startups with
    | nil => exact owes
    | cons startup rest =>
      cases startup with
      | act event =>
        have quiet := startups_quiet (begun (startups ▸ List.mem_cons_self))
        exact (owes.act quiet).congr (fun _ queued => queued) (fun _ begun => begun)
      | doDelayTask delay_ms task => exact owes.congr (fun _ queued => queued) (fun _ begun => begun)
  | receive buf peer ttl =>
    left
    simp only [step]
    refine owes.congr (fun _ queued => ?_) (fun _ begun => begun)
    exact Station.commands_receive queued buf peer ttl
  | pollInterface | resume | runTask | elapse =>
    left
    exact owes.act (fun _ _ => StationEvent.noConfusion)
  | emplace poller index =>
    left
    simp only [step]
    split <;> exact owes.congr (fun _ queued => queued) (fun _ begun => begun)
  | getMinDelay poller =>
    left
    simp only [step]
    split <;> exact owes.congr (fun _ queued => queued) (fun _ begun => begun)
  | runDelayTask poller enumeration =>
    left
    simp only [step]
    split
    · exact owes
    · rename_i task rest _
      have quiet : ∀ index other, task.event enumeration ≠ .handleCmd index other := by
        intro index other
        cases task <;> exact StationEvent.noConfusion
      exact (owes.act quiet).congr (fun _ queued => queued) (fun _ begun => begun)

/-- Discovery is complete. A node that has received every response of a core to a query, in
whatever order, with whatever else it receives and does in between, and has worked off the
lists it was sent, has set off a probe of every peer the core lists but itself, under its MAC
and to its endpoint, unless it knew by then another way to it than its uplink. -/
theorem discovers (inet : InetText) (documented : inet.Documented) (inet_ntoa : SockAddr → Bytes)
    (core config : Config) (noComma : 44 ∉ macBytes core.macLocal) (enumeration : Enumeration)
    (table : MacMap) (readable : ∀ entry ∈ table.entries, Readable entry) (peer : SockAddr)
    (ttl : UInt8) (now : Nat) (enableP2p : Bool) (events : List (DaemonEvent Poller))
    (heard : ∀ send ∈ OnQueryPeers (SockUtil.inet_ntoa inet) core (enumeration.order table) peer ttl,
      ∃ behind source ttl, .receive ⟨send.buf, behind⟩ source ttl ∈ events)
    (handled : (Execution.run (step inet inet_ntoa config) (start config now enableP2p)
      events).station.commands = [])
    (examined : (Execution.run (step inet inet_ntoa config) (start config now enableP2p)
      events).examining = [])
    (entry : MacEntry) (stored : entry ∈ table.entries) (told : listed entry = true)
    (other : entry.1 ≠ config.macLocal) :
    (∃ probe ∈ Execution.outputs (step inet inet_ntoa config) (probes inet config)
        (start config now enableP2p) events, ProbeOf entry probe) ∨
      ∃ first, first <+: events ∧ ¬ Relayed config
        (Execution.run (step inet inet_ntoa config) (start config now enableP2p) first).station
        entry.1 := by
  have ordered (entry : MacEntry) : entry ∈ enumeration.order table ↔ entry ∈ table.entries :=
    (enumeration.perm table).mem_iff
  obtain ⟨send, sent, dispatched, lists⟩ := exists_response documented noComma
    (fun entry inside => readable entry ((ordered entry).mp inside)) ((ordered entry).mpr stored) told
    peer ttl
  obtain ⟨behind, source, hops, received⟩ := heard send sent
  obtain ⟨front, back, rfl⟩ := List.append_of_mem received
  let before : Daemon Poller :=
    Execution.run (step inet inet_ntoa config) (start config now enableP2p) front
  have begun : before.startups ⊆ TalusVSwitch.startups enableP2p :=
    @Execution.run_invariant _ _ (step inet inet_ntoa config)
      (fun daemon : Daemon Poller => daemon.startups ⊆ TalusVSwitch.startups enableP2p)
      (fun _ event fewer => List.Subset.trans (startups_step event) fewer) _ (List.Subset.refl _) front
  let opened := before.step inet inet_ntoa config (.receive ⟨send.buf, behind⟩ source hops)
  have owes : Owes inet (itemText (SockUtil.inet_ntoa inet) entry) opened := by
    refine .posted ⟨⟨send.buf, behind⟩, source, hops⟩ ?_ (dispatched.handled behind) lists
    simp only [opened, step, Station.receive, dispatched.classified behind hops]
    exact List.mem_append_right _ (List.mem_singleton.mpr rfl)
  have opening : opened.startups ⊆ TalusVSwitch.startups enableP2p :=
    List.Subset.trans (startups_step _) begun
  rcases Execution.pending_or_settled (owes_step documented (readable entry stored) told other)
    ⟨opening, owes⟩ back with ⟨_, still⟩ | ⟨first, event, earlier, settled⟩
  · rw [Execution.run_append, Execution.run_cons] at handled examined
    cases still with
    | posted command queued => rw [handled] at queued; cases queued
    | examining items begun => rw [examined] at begun; cases begun
  · obtain ⟨later, rfl⟩ := earlier
    let reached := front ++ .receive ⟨send.buf, behind⟩ source hops :: first
    have same : Execution.run (step inet inet_ntoa config) (start config now enableP2p) reached =
        Execution.run (step inet inet_ntoa config) opened first := by
      rw [Execution.run_append, Execution.run_cons]
    rw [← same] at settled
    have whole : reached ++ [event] <+:
        front ++ .receive ⟨send.buf, behind⟩ source hops :: (first ++ [event] ++ later) :=
      ⟨later, by simp [reached]⟩
    rcases settled with ⟨probe, posted, probes⟩ | known
    · exact .inl ⟨probe, Execution.mem_outputs.mpr ⟨reached, event, whole, posted⟩, probes⟩
    · exact .inr ⟨reached, (List.prefix_append _ _).trans whole, known⟩

/-- A core that has heard of the node and of one other. -/
theorem discovers_one :
    let core : Config := ⟨0x0400000000020000, 4, .inet 0 0, []⟩
    let config : Config := ⟨0x0200000000020000, 4, .inet 0x0A000001 9001, []⟩
    let table : MacMap := (∅ : MacMap)
      |>.addMacPeer 0 MAC_BROADCAST (.inet 0 0) 4
      |>.addMacPeer 0 0x0100000000020000 (.inet 0x0A000009 9001) 3
      |>.addMacPeer 0 0x0200000000020000 (.inet6 (In6Addr.ofV4 0x0A000008) 9003) 3
    let events : List (DaemonEvent Unit) :=
      (OnQueryPeers (SockUtil.inet_ntoa .unabridged) core (Enumeration.stored.order table)
        (.inet 0x0A000008 9003) 3).map
          (fun send => .receive ⟨send.buf, []⟩ config.corePeer send.ttl) ++
        [.handleCmd 0 .stored, .examineItem 0 (), .examineItem 0 (), .examineItem 0 ()]
    ∃ probe ∈ Execution.outputs (step InetText.unabridged (fun _ => []) config)
      (probes InetText.unabridged config) (start config 0 true) events,
      ProbeOf ⟨0x0100000000020000, .inet 0x0A000009 9001, 3, 0⟩ probe := by
  intro core config table events
  have heard : ∀ send ∈ OnQueryPeers (SockUtil.inet_ntoa .unabridged) core
      (Enumeration.stored.order table) (.inet 0x0A000008 9003) 3,
      ∃ behind source ttl, (.receive ⟨send.buf, behind⟩ source ttl : DaemonEvent Unit) ∈ events :=
    fun send sent => ⟨[], config.corePeer, send.ttl, List.mem_append_left _ (List.mem_map_of_mem sent)⟩
  have readable : ∀ entry ∈ table.entries,
      entry.1.toNat % 65536 = 0 ∧ entry.2.sock ≠ .unspec := by
    decide +kernel
  have handled : (Execution.run (step InetText.unabridged (fun _ => []) config)
      (start config 0 true) events).station.commands.isEmpty = true := by
    decide +kernel
  have examined : (Execution.run (step InetText.unabridged (fun _ => []) config)
      (start config 0 true) events).examining.isEmpty = true := by
    decide +kernel
  rcases discovers InetText.unabridged unabridged_documented (fun _ => []) core config (by decide)
    .stored table (fun entry inside => ⟨(readable entry inside).1, (readable entry inside).2⟩)
    (.inet 0x0A000008 9003) 3 0 true events heard (List.isEmpty_iff.mp handled)
    (List.isEmpty_iff.mp examined) ⟨0x0100000000020000, .inet 0x0A000009 9001, 3, 0⟩
    (by decide +kernel) (by decide) (by decide) with found | ⟨first, earlier, known⟩
  · exact found
  · have relayed : ∀ first ∈ events.inits, Relayed config
        (Execution.run (step InetText.unabridged (fun _ => []) config) (start config 0 true)
          first).station 0x0100000000020000 := by
      decide +kernel
    exact absurd (relayed first ((List.mem_inits _ _).mpr earlier)) known

end Daemon

end TalusVSwitch
