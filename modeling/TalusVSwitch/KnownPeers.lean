import TalusVSwitch.Daemon

namespace TalusVSwitch

universe u

namespace VSCtrlHelper

/-- An item of a peer list that names this address. -/
def Names (inet : InetText) (item : Bytes) (addr : SockAddr) : Prop :=
  ∃ macText host port, split item 45 = [macText, host, port] ∧
    SockUtil.make_sockaddr inet (cStr host) (toUInt16 (atoi (cStr port))) = some addr

/-- What a datagram tells of addresses: its source, and, if it is a peer list, what it names. -/
def Teaches (inet : InetText) (buf : Buffer) (peer addr : SockAddr) : Prop :=
  addr = peer ∨ (commandOf buf = some .ReQueryPeers ∧ ∃ item ∈ itemsOf buf.bytes, Names inet item addr)

end VSCtrlHelper

open VSCtrlHelper (Names Teaches)

namespace Station

variable {inet_ntoa : SockAddr → Bytes} {config : Config} {station : Station}

theorem entry_next (uplink : MAC_BROADCAST ∈ station.table) {occurrence : Occurrence} {mac : Mac}
    {after : MacPeer} (found : (station.next inet_ntoa config occurrence).table.lookup mac = some after) :
    (∃ before, station.table.lookup mac = some before ∧ before.sock = after.sock) ∨
      ∃ buf ttl, occurrence = .receive buf after.sock ttl := by
  cases occurrence with
  | receive buf peer ttl =>
    rw [next_receive, receive_table] at found
    rcases VSwitch.learnFrom_entry found with ⟨before, kept, same, _⟩ | ⟨_, _, learned, _⟩
    · exact .inl ⟨before, kept, same.symm⟩
    · exact .inr ⟨buf, ttl, by rw [learned]⟩
  | act event =>
    rw [next_act] at found
    have acted := act_acted inet_ntoa config station event
    by_cases broadcast : mac = MAC_BROADCAST
    · subst broadcast
      obtain ⟨before, stored⟩ := Option.isSome_iff_exists.mp (AList.lookup_isSome.mpr uplink)
      rw [acted.uplink before stored] at found
      cases found
      exact .inl ⟨_, stored, rfl⟩
    · exact .inl ⟨after, acted.entries mac after broadcast found, rfl⟩

/-- An address a table has. -/
def Entered (table : MacMap) (addr : SockAddr) : Prop :=
  ∃ mac peerInfo, table.lookup mac = some peerInfo ∧ peerInfo.sock = addr

theorem entered_of_order {table : MacMap} {enumeration : Enumeration} {entry : MacEntry}
    (member : entry ∈ enumeration.order table) : Entered table entry.2.sock :=
  ⟨entry.1, entry.2, AList.mem_lookup_iff.mpr ((enumeration.perm table).subset member), rfl⟩

theorem resume_addr {enumeration : Enumeration} {task : Pending} {send : Send}
    (sent : send ∈ (resume config enumeration station task).2) : Entered station.table send.addr := by
  cases task with
  | forward received pktRecvPeer =>
    simp only [resume] at sent
    rcases VSwitch.forward_cases config enumeration station.ageing.now received pktRecvPeer
      station.table with nothing | ⟨_, _, _, ⟨_, peerInfo, found, one⟩ | ⟨_, copies⟩⟩
    · rw [nothing] at sent
      cases sent
    · rw [one, List.mem_singleton] at sent
      exact ⟨_, _, found, by rw [sent]⟩
    · rw [copies] at sent
      obtain ⟨entry, member, _, rfl⟩ := mem_sendBroadcast sent
      exact entered_of_order member
  | broadcast buf =>
    obtain ⟨entry, member, _, rfl⟩ := mem_sendBroadcast sent
    exact entered_of_order member

theorem act_addr (uplink : MAC_BROADCAST ∈ station.table) {event : StationEvent} {send : Send}
    (sent : send ∈ (station.act inet_ntoa config event).2) :
    send.addr = config.corePeer ∨
    Entered station.table send.addr ∨
    (∃ command ∈ station.commands, command.peer = send.addr) ∨
    ∃ mac, event = .probe mac send.addr := by
  cases event with
  | pollInterface frame behind =>
    simp only [act, pollInterface] at sent
    obtain ⟨peerInfo, stored⟩ := Option.isSome_iff_exists.mp (AList.lookup_isSome.mpr uplink)
    cases hit : station.table.lookup (Buffer.dMac ⟨frame, behind⟩) with
    | none =>
      simp only [MacMap.getMacPeer, hit, stored] at sent
      split_ifs at sent
      · cases sent
      · rw [List.mem_singleton] at sent
        exact .inr (.inl ⟨_, _, stored, by rw [sent]⟩)
      · cases sent
      · cases sent
    | some found =>
      simp only [MacMap.getMacPeer, hit] at sent
      split_ifs at sent
      · cases sent
      · rw [List.mem_singleton] at sent
        exact .inr (.inl ⟨_, _, hit, by rw [sent]⟩)
      · cases sent
      · cases sent
  | resume index enumeration =>
    simp only [act] at sent
    split at sent
    · cases sent
    · rename_i task picked
      have entered := resume_addr sent
      exact .inr (.inl entered)
  | handleCmd index enumeration =>
    simp only [act] at sent
    split at sent
    · cases sent
    · rename_i command picked
      obtain ⟨answered, _⟩ := VSCtrlHelper.handleCmd_sends sent
      exact .inr (.inr (.inl ⟨command, List.mem_of_getElem? picked, answered.symm⟩))
  | keepLinks enumeration =>
    obtain ⟨entry, member, rfl⟩ := List.mem_map.mp sent
    exact .inr (.inl (entered_of_order (List.mem_filter.mp member).1))
  | probe mac addr =>
    rw [act, List.mem_singleton] at sent
    exact .inr (.inr (.inr ⟨mac, by rw [sent]; rfl⟩))
  | sendQueryPeers | sendQueryPeerInfo =>
    rw [act, List.mem_singleton] at sent
    exact .inl (by rw [sent]; rfl)
  | checkMac | runTask | elapse => cases sent

end Station

namespace Daemon

variable {Poller : Type u} {inet : InetText} {inet_ntoa : SockAddr → Bytes} {config : Config}
  {daemon : Daemon Poller} {probe : Probe} {addr : SockAddr}

/-- A task that waits somewhere for its time. -/
def Waits (daemon : Daemon Poller) (task : DelayTask) : Prop :=
  (∃ delay_ms, .doDelayTask delay_ms task ∈ daemon.startups) ∨
  ∃ poller, (∃ time_line, (time_line, task) ∈ daemon.posted poller) ∨
    (∃ time_line, (time_line, task) ∈ (daemon.loops poller).map.entries) ∨ task ∈ daemon.due poller

/-- A probe that has keep-alives to come. -/
def Probes (daemon : Daemon Poller) (probe : Probe) : Prop :=
  ∃ task, daemon.Waits task ∧ task.probe? = some probe

/-- An address that a peer list names, from the command to the probe. -/
inductive Listed (inet : InetText) (daemon : Daemon Poller) (addr : SockAddr) : Prop where
  | command (command : PostedCommand) (queued : command ∈ daemon.station.commands)
      (dispatched : VSCtrlHelper.commandOf command.buf = some .ReQueryPeers) (item : Bytes)
      (member : item ∈ VSCtrlHelper.itemsOf command.buf.bytes) (names : Names inet item addr)
  | item (items : List Bytes) (examining : items ∈ daemon.examining) (item : Bytes)
      (member : item ∈ items) (names : Names inet item addr)
  | probe (probe : Probe) (runs : daemon.Probes probe) (same : probe.peer = addr)

/-- An address a node has somewhere. -/
inductive Holds (inet : InetText) (daemon : Daemon Poller) (addr : SockAddr) : Prop where
  | entry (entered : Station.Entered daemon.station.table addr)
  | source (command : PostedCommand) (queued : command ∈ daemon.station.commands)
      (same : command.peer = addr)
  | listed (listed : Listed inet daemon addr)
  | startup (mac : Mac) (listed : .act (.probe mac addr) ∈ daemon.startups)

theorem Waits.congr {after : Daemon Poller} {task : DelayTask} (waits : after.Waits task)
    (startups : after.startups = daemon.startups) (posted : after.posted = daemon.posted)
    (loops : after.loops = daemon.loops) (due : after.due = daemon.due) : daemon.Waits task := by
  simpa only [Waits, startups, posted, loops, due] using waits

theorem probe_flush {now : Nat} {map : EventPoller.DelayTaskMap DelayTask} {task : DelayTask}
    (belongs : task.probe? = some probe)
    (flushed : (∃ time_line,
        (time_line, task) ∈ (EventPoller.getMinDelay DelayTask.call now map).map.entries) ∨
      task ∈ (EventPoller.getMinDelay DelayTask.call now map).ran) :
    ∃ time_line before, (time_line, before) ∈ map.entries ∧ before.probe? = some probe := by
  have whole := map.upTo_append_beyond now
  rw [EventPoller.getMinDelay_eq] at flushed
  rcases flushed with ⟨time_line, kept⟩ | ran
  · rcases List.mem_append.mp (EventPoller.flush_perm.mem_iff.mp kept) with repeated | later
    · obtain ⟨entry, due, goes⟩ := List.mem_filterMap.mp repeated
      obtain ⟨next, more, same⟩ := Option.map_eq_some_iff.mp goes
      refine ⟨entry.1, entry.2, by rw [← whole]; exact List.mem_append_left _ due, ?_⟩
      have called := (Option.filter_eq_some_iff.mp more).1
      cases same
      generalize entry.2 = before at called
      cases before with
      | checkMac | keepLinks | sendQueryPeers | sendQueryPeerInfo =>
        cases called
        cases belongs
      | keepData other retry =>
        simp only [DelayTask.call] at called
        split_ifs at called <;>
          (cases called; exact belongs)
    · exact ⟨time_line, task, by rw [← whole]; exact List.mem_append_right _ later, belongs⟩
  · obtain ⟨entry, due, rfl⟩ := List.mem_map.mp ran
    exact ⟨entry.1, entry.2, by rw [← whole]; exact List.mem_append_left _ due, belongs⟩

theorem names_of_probes {event : DaemonEvent Poller} (set : probe ∈ daemon.probes inet config event) :
    ∃ items ∈ daemon.examining, ∃ item ∈ items, Names inet item probe.peer := by
  cases event with
  | examineItem index poller =>
    simp only [probes] at set
    cases examines : daemon.examined inet config index with
    | none =>
      simp only [examines] at set
      cases set
    | some result =>
      obtain ⟨found, table, rest⟩ := result
      cases found with
      | none =>
        simp only [examines] at set
        cases set
      | some asked =>
        simp only [examines, List.mem_singleton] at set
        subst set
        obtain ⟨item, picked, read⟩ := examined_item examines
        refine ⟨item :: rest, List.mem_of_getElem? picked, item, List.mem_cons_self, ?_⟩
        rcases VSCtrlHelper.examineItem_cases inet config daemon.station.ageing.now
          daemon.station.table item with ⟨_, thrown⟩ | ⟨_, posted, after, result, _, asks⟩
        · rw [thrown] at read
          cases read
        · rw [result] at read
          cases read
          obtain ⟨macText, host, port, fields, _, _, _, made, _⟩ := (asks probe).mp rfl
          exact ⟨macText, host, port, fields, made⟩
  | _ => cases set

section Steps

variable [DecidableEq Poller]

theorem waits_doDelayTask {poller : Poller} {delay_ms : Nat} {task waiting : DelayTask}
    (waits : (daemon.doDelayTask poller delay_ms task).Waits waiting) :
    daemon.Waits waiting ∨ waiting = task := by
  rcases waits with startup | ⟨other, ⟨time_line, posted⟩ | running⟩
  · exact .inl (.inl startup)
  · by_cases here : other = poller
    · subst here
      simp only [doDelayTask, Function.update_self] at posted
      rcases List.mem_append.mp posted with before | new
      · exact .inl (.inr ⟨other, .inl ⟨time_line, before⟩⟩)
      · exact .inr (congrArg Prod.snd (List.mem_singleton.mp new))
    · simp only [doDelayTask, Function.update_of_ne here] at posted
      exact .inl (.inr ⟨other, .inl ⟨time_line, posted⟩⟩)
  · exact .inl (.inr ⟨other, .inr running⟩)

/-- A probe that has keep-alives to come had them before or is set off now. -/
theorem probes_step {event : DaemonEvent Poller}
    (runs : (daemon.step inet inet_ntoa config event).Probes probe) :
    daemon.Probes probe ∨ probe ∈ daemon.probes inet config event := by
  obtain ⟨task, waits, belongs⟩ := runs
  cases event with
  | main poller =>
    left
    simp only [step] at waits
    cases startups : daemon.startups with
    | nil =>
      simp only [startups] at waits
      exact ⟨task, waits, belongs⟩
    | cons startup rest =>
      cases startup with
      | act event =>
        simp only [startups] at waits
        refine ⟨task, ?_, belongs⟩
        rcases waits with ⟨delay_ms, later⟩ | running
        · exact .inl ⟨delay_ms, by rw [startups]; exact List.mem_cons_of_mem _ later⟩
        · exact .inr running
      | doDelayTask delay_ms first =>
        simp only [startups] at waits
        have before : (daemon.doDelayTask poller delay_ms first).Waits task := by
          rcases waits with ⟨delay_ms, later⟩ | running
          · refine .inl ⟨delay_ms, ?_⟩
            simp only [doDelayTask, startups]
            exact List.mem_cons_of_mem _ later
          · exact .inr running
        rcases waits_doDelayTask before with waited | rfl
        · exact ⟨task, waited, belongs⟩
        · exact ⟨task, .inl ⟨delay_ms, by rw [startups]; exact List.mem_cons_self⟩, belongs⟩
  | receive | pollInterface | resume | handleCmd | runTask | elapse =>
    simp only [step] at waits
    exact .inl ⟨task, waits.congr rfl rfl rfl rfl, belongs⟩
  | examineItem index poller =>
    simp only [step, probes] at waits ⊢
    cases examines : daemon.examined inet config index with
    | none =>
      simp only [examines] at waits
      exact .inl ⟨task, waits.congr rfl rfl rfl rfl, belongs⟩
    | some result =>
      obtain ⟨found, table, rest⟩ := result
      cases found with
      | none =>
        simp only [examines] at waits
        exact .inl ⟨task, waits.congr rfl rfl rfl rfl, belongs⟩
      | some asked =>
        simp only [examines] at waits
        have before : (daemon.doDelayTask poller 1000 (.keepData asked 10)).Waits task :=
          waits.congr rfl rfl rfl rfl
        rcases waits_doDelayTask before with waited | rfl
        · exact .inl ⟨task, waited, belongs⟩
        · cases belongs
          exact .inr (List.mem_singleton.mpr rfl)
  | emplace poller index =>
    left
    simp only [step] at waits
    split at waits
    · rename_i timer idle picked
      rcases waits with startup | ⟨other, running⟩
      · exact ⟨task, .inl startup, belongs⟩
      · by_cases here : other = poller
        · subst here
          simp only [Function.update_self, EventPoller.Loop.step] at running
          rcases running with ⟨time_line, posted⟩ | ⟨time_line, mapped⟩ | due
          · exact ⟨task, .inr ⟨other, .inl ⟨time_line, List.mem_of_mem_eraseIdx posted⟩⟩, belongs⟩
          · rcases List.mem_cons.mp ((Multimap.emplace_perm _ _).mem_iff.mp mapped) with new | before
            · cases new
              exact ⟨_, .inr ⟨other, .inl ⟨_, List.mem_of_getElem? picked⟩⟩, belongs⟩
            · exact ⟨task, .inr ⟨other, .inr (.inl ⟨time_line, before⟩)⟩, belongs⟩
          · exact ⟨task, .inr ⟨other, .inr (.inr due)⟩, belongs⟩
        · simp only [Function.update_of_ne here] at running
          exact ⟨task, .inr ⟨other, running⟩, belongs⟩
    · exact ⟨task, waits, belongs⟩
  | getMinDelay poller =>
    left
    simp only [step] at waits
    split at waits
    · rcases waits with startup | ⟨other, running⟩
      · exact ⟨task, .inl startup, belongs⟩
      · by_cases here : other = poller
        · subst here
          simp only [Function.update_self, EventPoller.Loop.step] at running
          rcases running with ⟨time_line, posted⟩ | flushed
          · exact ⟨task, .inr ⟨other, .inl ⟨time_line, posted⟩⟩, belongs⟩
          · obtain ⟨time_line, before, mapped, same⟩ := probe_flush belongs flushed
            exact ⟨before, .inr ⟨other, .inr (.inl ⟨time_line, mapped⟩)⟩, same⟩
        · simp only [Function.update_of_ne here] at running
          exact ⟨task, .inr ⟨other, running⟩, belongs⟩
    · exact ⟨task, waits, belongs⟩
  | runDelayTask poller enumeration =>
    left
    simp only [step] at waits
    split at waits
    · exact ⟨task, waits, belongs⟩
    · rename_i first rest running
      rcases waits with startup | ⟨other, posted | mapped | due⟩
      · exact ⟨task, .inl startup, belongs⟩
      · exact ⟨task, .inr ⟨other, .inl posted⟩, belongs⟩
      · exact ⟨task, .inr ⟨other, .inr (.inl mapped)⟩, belongs⟩
      · refine ⟨task, .inr ⟨other, .inr (.inr ?_)⟩, belongs⟩
        by_cases here : other = poller
        · subst here
          simp only [Function.update_self] at due
          rw [running]
          exact List.mem_cons_of_mem _ due
        · simpa only [Function.update_of_ne here] using due

theorem station_cases (uplink : MAC_BROADCAST ∈ daemon.station.table) (event : DaemonEvent Poller) :
    (∃ buf peer ttl, event = .receive buf peer ttl ∧
      (daemon.step inet inet_ntoa config event).station =
        daemon.station.receive config buf peer ttl) ∨
    (daemon.step inet inet_ntoa config event).station = daemon.station ∨
    ∃ deed, (daemon.step inet inet_ntoa config event).station =
      (daemon.station.act inet_ntoa config deed).1 := by
  rw [station_step uplink]
  have own (deed : Option StationEvent) :
      Execution.run (Station.next inet_ntoa config) daemon.station (deed.toList.map .act) =
        daemon.station ∨
      ∃ act, Execution.run (Station.next inet_ntoa config) daemon.station (deed.toList.map .act) =
        (daemon.station.act inet_ntoa config act).1 := by
    cases deed with
    | none => exact .inl rfl
    | some act => exact .inr ⟨act, rfl⟩
  cases event with
  | receive buf peer ttl => exact .inl ⟨buf, peer, ttl, rfl, rfl⟩
  | _ => exact .inr (own _)

theorem examining_step {event : DaemonEvent Poller} {items : List Bytes} {item : Bytes}
    (examining : items ∈ (daemon.step inet inet_ntoa config event).examining) (member : item ∈ items) :
    (∃ earlier ∈ daemon.examining, item ∈ earlier) ∨
      ∃ command ∈ daemon.station.commands,
        VSCtrlHelper.commandOf command.buf = some .ReQueryPeers ∧
          item ∈ VSCtrlHelper.itemsOf command.buf.bytes := by
  cases event with
  | handleCmd index enumeration =>
    simp only [step] at examining
    rcases List.mem_append.mp examining with before | new
    · exact .inl ⟨items, before, member⟩
    · obtain ⟨command, picked, listed⟩ := List.mem_flatMap.mp new
      have queued := List.mem_of_getElem? (Option.mem_toList.mp picked)
      unfold peerList at listed
      split at listed
      · rename_i dispatched
        rw [List.mem_singleton] at listed
        exact .inr ⟨command, queued, dispatched, listed ▸ member⟩
      · cases listed
  | examineItem index poller =>
    left
    simp only [step] at examining
    cases examines : daemon.examined inet config index with
    | none =>
      simp only [examines] at examining
      exact ⟨items, List.mem_of_mem_eraseIdx examining, member⟩
    | some result =>
      obtain ⟨found, table, rest⟩ := result
      obtain ⟨first, picked, _⟩ := examined_item examines
      have shorter : items ∈ daemon.examining.set index rest := by
        cases found <;> simpa only [examines] using examining
      rcases List.mem_or_eq_of_mem_set shorter with before | rfl
      · exact ⟨items, before, member⟩
      · exact ⟨_, List.mem_of_getElem? picked, List.mem_cons_of_mem _ member⟩
  | main poller =>
    left
    simp only [step] at examining
    split at examining <;> exact ⟨items, examining, member⟩
  | receive | pollInterface | resume | runTask | elapse =>
    simp only [step] at examining
    exact .inl ⟨items, examining, member⟩
  | emplace | getMinDelay | runDelayTask =>
    left
    simp only [step] at examining
    split at examining <;> exact ⟨items, examining, member⟩

theorem startups_step (event : DaemonEvent Poller) :
    (daemon.step inet inet_ntoa config event).startups ⊆ daemon.startups := by
  cases event with
  | main poller =>
    simp only [step]
    split
    · exact List.Subset.refl _
    · rename_i listed
      rw [listed]
      exact List.subset_cons_self _ _
    · rename_i listed
      rw [listed]
      exact List.subset_cons_self _ _
  | receive | pollInterface | resume | handleCmd | runTask | elapse =>
    simp only [step, act]
    exact List.Subset.refl _
  | examineItem | emplace | getMinDelay | runDelayTask =>
    simp only [step]
    split <;> exact List.Subset.refl _

theorem commands_step {event : DaemonEvent Poller} {command : PostedCommand}
    (queued : command ∈ (daemon.step inet inet_ntoa config event).station.commands) :
    command ∈ daemon.station.commands ∨
      ∃ buf peer ttl, event = .receive buf peer ttl ∧ command = ⟨buf, peer, ttl⟩ := by
  have own (deed : StationEvent)
      (after : command ∈ (daemon.station.act inet_ntoa config deed).1.commands) :
      command ∈ daemon.station.commands :=
    (Station.act_acted inet_ntoa config daemon.station deed).commands command after
  cases event with
  | receive buf peer ttl =>
    simp only [step] at queued
    rcases Station.receive_commands queued with before | new
    · exact .inl before
    · exact .inr ⟨buf, peer, ttl, rfl, new⟩
  | pollInterface | resume | handleCmd | runTask | elapse =>
    simp only [step] at queued
    exact .inl (own _ queued)
  | main poller =>
    left
    simp only [step] at queued
    cases startups : daemon.startups with
    | nil => simpa only [startups] using queued
    | cons startup rest =>
      cases startup with
      | act event =>
        simp only [startups] at queued
        exact own event queued
      | doDelayTask delay_ms task => simpa only [startups, doDelayTask] using queued
  | runDelayTask poller enumeration =>
    left
    simp only [step] at queued
    cases due : daemon.due poller with
    | nil => simpa only [due] using queued
    | cons task rest =>
      simp only [due] at queued
      exact own _ queued
  | examineItem | emplace | getMinDelay =>
    left
    simp only [step] at queued
    split at queued <;> exact queued

/-- Whatever a peer list names to a node it named before, or the list comes in. -/
theorem listed_step {event : DaemonEvent Poller}
    (listed : Listed inet (daemon.step inet inet_ntoa config event) addr) :
    Listed inet daemon addr ∨ ∃ buf peer ttl, event = .receive buf peer ttl ∧
      VSCtrlHelper.commandOf buf = some .ReQueryPeers ∧
        ∃ item ∈ VSCtrlHelper.itemsOf buf.bytes, Names inet item addr := by
  cases listed with
  | command command queued dispatched item member names =>
    rcases commands_step queued with before | ⟨buf, peer, ttl, rfl, rfl⟩
    · exact .inl (.command command before dispatched item member names)
    · exact .inr ⟨buf, peer, ttl, rfl, dispatched, item, member, names⟩
  | item items examining item member names =>
    left
    rcases examining_step examining member with ⟨earlier, before, listed⟩ |
      ⟨command, queued, dispatched, listed⟩
    · exact .item earlier before item listed names
    · exact .command command queued dispatched item listed names
  | probe probe runs same =>
    left
    rcases probes_step runs with before | set
    · exact .probe probe before same
    · obtain ⟨items, examining, item, member, names⟩ := names_of_probes set
      exact .item items examining item member (same ▸ names)

/-- Whatever a node comes to hold it held before, or has from the datagram it receives. -/
theorem holds_step (uplink : MAC_BROADCAST ∈ daemon.station.table) {event : DaemonEvent Poller}
    (holds : Holds inet (daemon.step inet inet_ntoa config event) addr) :
    Holds inet daemon addr ∨
      ∃ buf peer ttl, event = .receive buf peer ttl ∧ Teaches inet buf peer addr := by
  cases holds with
  | entry entered =>
    obtain ⟨mac, peerInfo, found, rfl⟩ := entered
    rcases @station_cases _ inet inet_ntoa config daemon _ uplink event with
      ⟨buf, peer, ttl, rfl, result⟩ | same | ⟨deed, result⟩
    · rw [result, ← @Station.next_receive inet_ntoa] at found
      rcases Station.entry_next uplink found with ⟨before, kept, same⟩ | ⟨_, _, same⟩
      · exact .inl (.entry ⟨mac, before, kept, same⟩)
      · injection same with _ source _
        exact .inr ⟨buf, peer, ttl, rfl, .inl source.symm⟩
    · rw [same] at found
      exact .inl (.entry ⟨mac, peerInfo, found, rfl⟩)
    · rw [result, ← Station.next_act] at found
      rcases Station.entry_next uplink found with ⟨before, kept, same⟩ | ⟨_, _, same⟩
      · exact .inl (.entry ⟨mac, before, kept, same⟩)
      · cases same
  | source command queued same =>
    rcases commands_step queued with before | ⟨buf, peer, ttl, rfl, rfl⟩
    · exact .inl (.source command before same)
    · exact .inr ⟨buf, peer, ttl, rfl, .inl same.symm⟩
  | listed listed =>
    rcases listed_step listed with before | ⟨buf, peer, ttl, rfl, named⟩
    · exact .inl (.listed before)
    · exact .inr ⟨buf, peer, ttl, rfl, .inr named⟩
  | startup mac listed => exact .inl (.startup mac (startups_step event listed))

end Steps

theorem sends_held (uplink : MAC_BROADCAST ∈ daemon.station.table) {event : DaemonEvent Poller}
    {send : Send} (sent : send ∈ daemon.sends inet_ntoa config event) :
    send.addr = config.corePeer ∨ Holds inet daemon send.addr := by
  obtain ⟨deed, done, sent⟩ := List.mem_flatMap.mp sent
  have done := Option.mem_toList.mp done
  rcases Station.act_addr uplink sent with remote | entered | ⟨command, queued, same⟩ | ⟨mac, rfl⟩
  · exact .inl remote
  · exact .inr (.entry entered)
  · exact .inr (.source command queued same)
  · right
    cases event with
    | main poller =>
      simp only [deed] at done
      split at done
      · rename_i event rest listed
        cases done
        exact .startup mac (by rw [listed]; exact List.mem_cons_self)
      · cases done
    | runDelayTask poller enumeration =>
      obtain ⟨task, first, probing⟩ := Option.map_eq_some_iff.mp done
      cases task with
      | keepData probe retry =>
        injection probing with _ same
        exact .listed (.probe probe
          ⟨_, .inr ⟨poller, .inr (.inr (List.mem_of_head? first))⟩, rfl⟩ same)
      | checkMac | keepLinks | sendQueryPeers | sendQueryPeerInfo => cases probing
    | _ => cases done

theorem not_listed_start {now : Nat} {enableP2p : Bool} :
    ¬ Listed inet (start config now enableP2p : Daemon Poller) addr := by
  intro listed
  cases listed with
  | command command queued => cases queued
  | item items examining => cases examining
  | probe probe runs same =>
    obtain ⟨task, ⟨delay_ms, listed⟩ | ⟨poller, ⟨_, posted⟩ | ⟨_, mapped⟩ | due⟩, belongs⟩ := runs
    · have none : ∀ startup ∈ (start config now enableP2p : Daemon Poller).startups,
          ∀ delay_ms task, startup = .doDelayTask delay_ms task → task.probe? = none := by
        cases enableP2p <;> simp [start, TalusVSwitch.startups, DelayTask.probe?]
      rw [none _ listed delay_ms task rfl] at belongs
      cases belongs
    · cases posted
    · cases mapped
    · cases due

theorem not_startup_probe {now : Nat} {enableP2p : Bool} {mac : Mac} :
    .act (.probe mac addr) ∉ (start config now enableP2p : Daemon Poller).startups := by
  cases enableP2p <;> simp [start, TalusVSwitch.startups]

theorem holds_start {now : Nat} {enableP2p : Bool}
    (holds : Holds inet (start config now enableP2p : Daemon Poller) addr) :
    addr = config.corePeer := by
  cases holds with
  | entry entered =>
    obtain ⟨mac, peerInfo, found, rfl⟩ := entered
    by_cases broadcast : mac = MAC_BROADCAST
    · subst broadcast
      have uplink := Station.start_uplink config now
      cases uplink.symm.trans found
      rfl
    · have absent := @Station.start_lookup_ne config now mac broadcast
      cases absent.symm.trans found
  | source command queued => cases queued
  | listed listed => exact absurd listed not_listed_start
  | startup mac listed => exact absurd listed not_startup_probe

variable [DecidableEq Poller]

/-- A node never sends anywhere but to its remote, to an address it has received a datagram
from, and to an address that a peer list it has received names; whoever sent that list. -/
theorem sends_known (inet : InetText) (inet_ntoa : SockAddr → Bytes) (config : Config) (now : Nat)
    (enableP2p : Bool) (events : List (DaemonEvent Poller)) (send : Send)
    (sent : send ∈ Execution.outputs (step inet inet_ntoa config) (sends inet_ntoa config)
      (start config now enableP2p) events) :
    send.addr = config.corePeer ∨
      ∃ buf peer ttl, .receive buf peer ttl ∈ events ∧ Teaches inet buf peer send.addr := by
  obtain ⟨first, event, earlier, sent⟩ := Execution.mem_outputs.mp sent
  have known := @Execution.run_admitted _ _ (step inet inet_ntoa config)
    (fun daemon : Daemon Poller => MAC_BROADCAST ∈ daemon.station.table ∧
      ∀ addr, Holds inet daemon addr → addr = config.corePeer ∨
        ∃ buf peer ttl, .receive buf peer ttl ∈ events ∧ Teaches inet buf peer addr)
    (fun event => event ∈ events)
    (by
      rintro daemon event member ⟨uplink, held⟩
      refine ⟨?_, fun addr holds => ?_⟩
      · obtain ⟨_, ⟨same, kept⟩, _⟩ := refines_step daemon daemon.station event ⟨rfl, uplink⟩
        rwa [← same] at kept
      · rcases holds_step uplink holds with before | ⟨buf, peer, ttl, rfl, teaches⟩
        · exact held addr before
        · exact .inr ⟨buf, peer, ttl, member, teaches⟩)
    (start config now enableP2p)
    ⟨MacMap.mem_of_lookup (Station.start_uplink config now),
      fun addr holds => .inl (holds_start holds)⟩ first
    (fun event member => earlier.subset (List.mem_append_left _ member))
  rcases sends_held known.1 sent with remote | held
  · exact .inl remote
  · exact known.2 _ held

/-- A reply to a peer heard once. -/
theorem sends_known_reply :
    let events : List (DaemonEvent Unit) :=
      [.receive ⟨macBytes 0x20000 ++ macBytes 0x30000 ++ [8, 0], []⟩ (.inet 7 9001) 4,
        .pollInterface (macBytes 0x30000 ++ macBytes 0x20000 ++ [8, 0]) []]
    ∃ buf peer ttl, .receive buf peer ttl ∈ events ∧
      Teaches InetText.unabridged buf peer (.inet 7 9001) := by
  intro events
  let config : Config := ⟨0x20000, 8, .inet 1 9001, []⟩
  let reply : Send := ⟨macBytes 0x30000 ++ macBytes 0x20000 ++ [8, 0], .inet 7 9001, 8⟩
  rcases sends_known InetText.unabridged (fun _ => []) config 0 true events reply (by decide) with
    remote | heard
  · exact absurd remote (by decide)
  · exact heard

end Daemon

end TalusVSwitch
