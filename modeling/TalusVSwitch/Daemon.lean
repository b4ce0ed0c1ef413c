import Mathlib.Algebra.BigOperators.Fin
import TalusVSwitch.Poller
import TalusVSwitch.PeerResponse
import TalusVSwitch.StationRun

/-! A node with its timers: what `main`, `LinkKeeper::start` and `VSCtrlHelper::Start`
set off on the pollers, and the probes a peer list adds. -/

namespace TalusVSwitch

universe u

/-- The delay tasks of a node. -/
inductive DelayTask where
  | checkMac
  | keepLinks
  | sendQueryPeers
  | sendQueryPeerInfo
  /-- A probe, with what is left of `*retry`. -/
  | keepData (probe : Probe) (retry : Nat)
deriving DecidableEq, Repr

namespace DelayTask

/-- What a task returns, and what it is the next time. -/
def call : DelayTask → Option (Nat × DelayTask)
  | .checkMac => some (5000, .checkMac)
  | .keepLinks => some (5000, .keepLinks)
  | .sendQueryPeers => some (60 * 1000, .sendQueryPeers)
  | .sendQueryPeerInfo => some (30 * 1000, .sendQueryPeerInfo)
  | .keepData probe retry =>
    if retry ≠ 0 then some (1000, .keepData probe (retry - 1)) else some (0, .keepData probe retry)

/-- What a task does. -/
def event (enumeration : Enumeration) : DelayTask → StationEvent
  | .checkMac => .checkMac enumeration
  | .keepLinks => .keepLinks enumeration
  | .sendQueryPeers => .sendQueryPeers
  | .sendQueryPeerInfo => .sendQueryPeerInfo
  | .keepData probe _ => .probe probe.mac probe.peer

/-- The probe a task belongs to. -/
def probe? : DelayTask → Option Probe
  | .keepData probe _ => some probe
  | _ => none

/-- How often a task sends keep-alives of this probe from now on. -/
def lives (probe : Probe) : DelayTask → Nat
  | .keepData other retry => if other = probe then retry + 1 else 0
  | _ => 0

end DelayTask

/-- What `main` does once the table is there. -/
inductive Startup where
  | act (event : StationEvent)
  | doDelayTask (delay_ms : Nat) (task : DelayTask)

def Startup.lives (probe : Probe) : Startup → Nat
  | .act _ => 0
  | .doDelayTask _ task => task.lives probe

/-- The timer of the table comes from the first `addMacPeer`, then follow
`LinkKeeper::start` and `VSCtrlHelper::Start`. -/
def startups (enableP2p : Bool) : List Startup :=
  [.doDelayTask 5000 .checkMac, .doDelayTask 5000 .keepLinks] ++
  (if enableP2p then [.act .sendQueryPeers, .doDelayTask (60 * 1000) .sendQueryPeers] else []) ++
  [.act .sendQueryPeerInfo, .doDelayTask (30 * 1000) .sendQueryPeerInfo]

/-- A node on its pollers. -/
structure Daemon (Poller : Type u) where
  station : Station
  startups : List Startup
  /-- The handlers of a peer list, each with the items it has still to examine. -/
  examining : List (List Bytes)
  /-- What `doDelayTask` has handed to a poller, with its deadline. -/
  posted : Poller → List (Nat × DelayTask)
  loops : Poller → EventPoller.Loop DelayTask
  /-- What a poller has still to run of its flush. -/
  due : Poller → List DelayTask

inductive DaemonEvent (Poller : Type u) where
  /-- The next step of `main`; `getPoller` may give any poller. -/
  | main (poller : Poller)
  | receive (buf : Buffer) (peer : SockAddr) (ttl : UInt8)
  | pollInterface (frame behind : Bytes)
  | resume (index : Nat) (enumeration : Enumeration)
  | handleCmd (index : Nat) (enumeration : Enumeration)
  /-- The next item of a peer list. -/
  | examineItem (index : Nat) (poller : Poller)
  | runTask (index : Nat)
  | elapse (milliseconds : Nat)
  | emplace (poller : Poller) (index : Nat)
  | getMinDelay (poller : Poller)
  | runDelayTask (poller : Poller) (enumeration : Enumeration)

namespace Daemon

variable {Poller : Type u}

section Machine

variable (inet : InetText) (inet_ntoa : SockAddr → Bytes) (config : Config)

def start (now : Nat) (enableP2p : Bool) : Daemon Poller where
  station := Station.start config now
  startups := TalusVSwitch.startups enableP2p
  examining := []
  posted _ := []
  loops _ := .start
  due _ := []

def act (daemon : Daemon Poller) (event : StationEvent) : Daemon Poller :=
  { daemon with station := (daemon.station.act inet_ntoa config event).1 }

variable [DecidableEq Poller]

/-- `doDelayTask` -/
def doDelayTask (daemon : Daemon Poller) (poller : Poller) (delay_ms : Nat) (task : DelayTask) :
    Daemon Poller :=
  { daemon with
    posted := Function.update daemon.posted poller
      (daemon.posted poller ++
        [(EventPoller.timeAfter daemon.station.ageing.now delay_ms, task)]) }

/-- What the handler of a peer list goes through. -/
def peerList (command : PostedCommand) : List (List Bytes) :=
  match VSCtrlHelper.commandOf command.buf with
  | some .ReQueryPeers => [VSCtrlHelper.itemsOf command.buf.bytes]
  | _ => []

/-- What the next item of a peer list comes to, `none` for an exception or no item. -/
def examined (daemon : Daemon Poller) (index : Nat) : Option (Option Probe × MacMap × List Bytes) :=
  match daemon.examining[index]? with
  | some (item :: rest) =>
    (VSCtrlHelper.examineItem inet config daemon.station.ageing.now daemon.station.table item).map
      (fun result => (result.1, result.2, rest))
  | _ => none

def step (daemon : Daemon Poller) : DaemonEvent Poller → Daemon Poller
  | .main poller =>
    match daemon.startups with
    | [] => daemon
    | .act event :: rest => { daemon.act inet_ntoa config event with startups := rest }
    | .doDelayTask delay_ms task :: rest =>
      { daemon.doDelayTask poller delay_ms task with startups := rest }
  | .receive buf peer ttl => { daemon with station := daemon.station.receive config buf peer ttl }
  | .pollInterface frame behind => daemon.act inet_ntoa config (.pollInterface frame behind)
  | .resume index enumeration => daemon.act inet_ntoa config (.resume index enumeration)
  | .handleCmd index enumeration =>
    { daemon.act inet_ntoa config (.handleCmd index enumeration) with
      examining := daemon.examining ++ daemon.station.commands[index]?.toList.flatMap peerList }
  | .examineItem index poller =>
    match daemon.examined inet config index with
    | none => { daemon with examining := daemon.examining.eraseIdx index }
    | some (none, table, rest) =>
      { daemon with
        station := daemon.station.withTable table
        examining := daemon.examining.set index rest }
    | some (some probe, table, rest) =>
      { daemon.doDelayTask poller 1000 (.keepData probe 10) with
        station := daemon.station.withTable table
        examining := daemon.examining.set index rest }
  | .runTask index => daemon.act inet_ntoa config (.runTask index)
  | .elapse milliseconds => daemon.act inet_ntoa config (.elapse milliseconds)
  | .emplace poller index =>
    match daemon.due poller, (daemon.posted poller)[index]? with
    | [], some timer =>
      { daemon with
        posted := Function.update daemon.posted poller ((daemon.posted poller).eraseIdx index)
        loops := Function.update daemon.loops poller
          ((daemon.loops poller).step DelayTask.call
            (.emplace daemon.station.ageing.now timer.1 timer.2)) }
    -- the poller is in a flush, or there is nothing
    | _, _ => daemon
  | .getMinDelay poller =>
    match daemon.due poller with
    | [] =>
      { daemon with
        due := Function.update daemon.due poller
          (EventPoller.getMinDelay DelayTask.call daemon.station.ageing.now
            (daemon.loops poller).map).ran
        loops := Function.update daemon.loops poller
          ((daemon.loops poller).step DelayTask.call (.getMinDelay daemon.station.ageing.now)) }
    | _ :: _ => daemon
  | .runDelayTask poller enumeration =>
    match daemon.due poller with
    | [] => daemon
    | task :: rest =>
      { daemon.act inet_ntoa config (task.event enumeration) with
        due := Function.update daemon.due poller rest }

/-- What the node does in a step of its own, if it does anything. -/
def deed (daemon : Daemon Poller) : DaemonEvent Poller → Option StationEvent
  | .main _ =>
    match daemon.startups with
    | .act event :: _ => some event
    | _ => none
  | .pollInterface frame behind => some (.pollInterface frame behind)
  | .resume index enumeration => some (.resume index enumeration)
  | .handleCmd index enumeration => some (.handleCmd index enumeration)
  | .runTask index => some (.runTask index)
  | .elapse milliseconds => some (.elapse milliseconds)
  | .runDelayTask poller enumeration =>
    (daemon.due poller).head?.map (fun task => task.event enumeration)
  | .receive .. | .examineItem .. | .emplace .. | .getMinDelay .. => none

/-- What a step hands to `send`. -/
def sends (daemon : Daemon Poller) (event : DaemonEvent Poller) : List Send :=
  (daemon.deed event).toList.flatMap
    (fun deed => (daemon.station.act inet_ntoa config deed).2)

/-- The probes a step sets off. -/
def probes (daemon : Daemon Poller) : DaemonEvent Poller → List Probe
  | .examineItem index _ =>
    match daemon.examined inet config index with
    | some (some probe, _) => [probe]
    | _ => []
  | _ => []

/-- The probes for which a step sends a keep-alive. -/
def keepData (daemon : Daemon Poller) : DaemonEvent Poller → List Probe
  | .runDelayTask poller _ => ((daemon.due poller).head?.bind DelayTask.probe?).toList
  | _ => []

end Machine

section Refinement

variable {inet : InetText} {inet_ntoa : SockAddr → Bytes} {config : Config}
  {daemon : Daemon Poller}

theorem examined_item {index : Nat} {probe : Option Probe} {table : MacMap} {rest : List Bytes}
    (examines : daemon.examined inet config index = some (probe, table, rest)) :
    ∃ item, daemon.examining[index]? = some (item :: rest) ∧
      VSCtrlHelper.examineItem inet config daemon.station.ageing.now daemon.station.table item =
        some (probe, table) := by
  unfold examined at examines
  split at examines
  · rename_i item behind picked
    obtain ⟨⟨found, after⟩, read, same⟩ := Option.map_eq_some_iff.mp examines
    cases same
    exact ⟨item, picked, read⟩
  · cases examines

/-- A peer list leaves a table alone that has its uplink. -/
theorem examined_table (uplink : MAC_BROADCAST ∈ daemon.station.table) {index : Nat}
    {probe : Option Probe} {table : MacMap} {rest : List Bytes}
    (examines : daemon.examined inet config index = some (probe, table, rest)) :
    daemon.station.withTable table = daemon.station := by
  obtain ⟨item, _, read⟩ := examined_item examines
  have same : table = daemon.station.table := by
    rcases VSCtrlHelper.examineItem_cases inet config daemon.station.ageing.now daemon.station.table
      item with ⟨_, thrown⟩ | ⟨_, found, after, result, lookup, _⟩
    · rw [thrown] at read
      cases read
    · rw [result] at read
      cases read
      rcases lookup with same | ⟨mac, same⟩
      · exact same
      · rw [same, MacMap.getMacPeer_table uplink]
  subst same
  rfl

/-- What a step is, without its timers. -/
def occurrences (daemon : Daemon Poller) : DaemonEvent Poller → List Occurrence
  | .receive buf peer ttl => [.receive buf peer ttl]
  | event => (daemon.deed event).toList.map .act

theorem sends_step (event : DaemonEvent Poller) :
    Execution.outputs (Station.next inet_ntoa config) (Station.sends inet_ntoa config) daemon.station
      (daemon.occurrences event) = daemon.sends inet_ntoa config event := by
  have one (deed : Option StationEvent) :
      Execution.outputs (Station.next inet_ntoa config) (Station.sends inet_ntoa config)
        daemon.station (deed.toList.map .act) =
      deed.toList.flatMap (fun deed => (daemon.station.act inet_ntoa config deed).2) := by
    cases deed with
    | none => rfl
    | some deed => simp [Execution.outputs]
  cases event with
  | receive => rfl
  | _ => exact one _

theorem uplink_next {station : Station} (uplink : MAC_BROADCAST ∈ station.table)
    (occurrence : Occurrence) :
    MAC_BROADCAST ∈ (station.next inet_ntoa config occurrence).table := by
  obtain ⟨peerInfo, found⟩ := Option.isSome_iff_exists.mp (AList.lookup_isSome.mpr uplink)
  cases occurrence with
  | receive buf peer ttl =>
    apply @MacMap.mem_of_lookup _ _ peerInfo
    rw [Station.next_receive, Station.receive_table, VSwitch.lookup_learnFrom_broadcast]
    exact found
  | act event =>
    exact MacMap.mem_of_lookup ((Station.act_acted inet_ntoa config station event).uplink peerInfo found)

/-- A node with its timers and the node that acts at will, in step. -/
def Refines (daemon : Daemon Poller) (station : Station) : Prop :=
  daemon.station = station ∧ MAC_BROADCAST ∈ station.table

theorem refines_start (config : Config) (now : Nat) (enableP2p : Bool) :
    Refines (start config now enableP2p : Daemon Poller) (Station.start config now) :=
  ⟨rfl, MacMap.mem_of_lookup (Station.start_uplink config now)⟩

variable [DecidableEq Poller]

theorem station_step (uplink : MAC_BROADCAST ∈ daemon.station.table) (event : DaemonEvent Poller) :
    (daemon.step inet inet_ntoa config event).station =
      Execution.run (Station.next inet_ntoa config) daemon.station (daemon.occurrences event) := by
  cases event with
  | main poller =>
    simp only [step, occurrences, deed]
    cases daemon.startups with
    | nil => rfl
    | cons startup rest => cases startup <;> rfl
  | receive | pollInterface | resume | handleCmd | runTask | elapse => rfl
  | examineItem index poller =>
    simp only [step, occurrences, deed]
    cases examines : daemon.examined inet config index with
    | none => rfl
    | some result =>
      obtain ⟨probe, table, rest⟩ := result
      have same := examined_table uplink examines
      cases probe <;> exact same
  | emplace poller index =>
    simp only [step, occurrences, deed]
    split <;> rfl
  | getMinDelay poller =>
    simp only [step, occurrences, deed]
    split <;> rfl
  | runDelayTask poller enumeration =>
    simp only [step, occurrences, deed]
    cases daemon.due poller <;> rfl

theorem refines_step (daemon : Daemon Poller) (station : Station) (event : DaemonEvent Poller)
    (refines : Refines daemon station) :
    ∃ occurrences,
      Refines (daemon.step inet inet_ntoa config event)
        (Execution.run (Station.next inet_ntoa config) station occurrences) ∧
      Execution.outputs (Station.next inet_ntoa config) (Station.sends inet_ntoa config) station
        occurrences = daemon.sends inet_ntoa config event := by
  obtain ⟨rfl, uplink⟩ := refines
  have kept := @Execution.run_invariant _ _ (Station.next inet_ntoa config)
    (fun station => MAC_BROADCAST ∈ station.table)
    (fun _ occurrence before => uplink_next before occurrence) _ uplink
  exact ⟨daemon.occurrences event, ⟨station_step uplink event, kept _⟩, sends_step event⟩

/-- Timers add nothing: every run of a node on its pollers, in whatever order they run their
tasks, is a run of the node that acts at will, and sends the same. -/
theorem refines_station (inet : InetText) (inet_ntoa : SockAddr → Bytes) (config : Config)
    (now : Nat) (enableP2p : Bool) (events : List (DaemonEvent Poller)) :
    ∃ occurrences,
      (Execution.run (step inet inet_ntoa config) (start config now enableP2p) events).station =
        Execution.run (Station.next inet_ntoa config) (Station.start config now) occurrences ∧
      Execution.outputs (step inet inet_ntoa config) (sends inet_ntoa config)
          (start config now enableP2p) events =
        Execution.outputs (Station.next inet_ntoa config) (Station.sends inet_ntoa config)
          (Station.start config now) occurrences := by
  obtain ⟨occurrences, ⟨same, _⟩, sent⟩ :=
    Execution.simulation refines_step (refines_start config now enableP2p) events
  exact ⟨occurrences, same, sent.symm⟩

end Refinement

section Probes

variable {probe : Probe}

theorem lives_again (now : Nat) (task : DelayTask) :
    ((EventPoller.again DelayTask.call now task).toList.map (fun next => next.2.lives probe)).sum +
      task.probe?.toList.count probe = task.lives probe := by
  cases task with
  | checkMac | keepLinks | sendQueryPeers | sendQueryPeerInfo => rfl
  | keepData other retry =>
    by_cases last : retry = 0
    · subst last
      by_cases same : other = probe <;>
        simp [EventPoller.again, DelayTask.call, DelayTask.lives, DelayTask.probe?, Option.filter, same]
    · by_cases same : other = probe <;>
        simp [EventPoller.again, DelayTask.call, DelayTask.lives, DelayTask.probe?, Option.filter, same,
          last]
      omega

/-- The lives of the tasks in a list. -/
def livesOf (probe : Probe) (timers : List (Nat × DelayTask)) : Nat :=
  (timers.map (fun timer => timer.2.lives probe)).sum

theorem livesOf_perm {one other : List (Nat × DelayTask)} (perm : one.Perm other) :
    livesOf probe one = livesOf probe other :=
  (perm.map _).sum_eq

@[simp] theorem livesOf_append (one other : List (Nat × DelayTask)) :
    livesOf probe (one ++ other) = livesOf probe one + livesOf probe other := by
  simp [livesOf]

theorem livesOf_flush (now : Nat) (map : EventPoller.DelayTaskMap DelayTask) :
    livesOf probe (EventPoller.getMinDelay DelayTask.call now map).map.entries +
      ((EventPoller.getMinDelay DelayTask.call now map).ran.filterMap DelayTask.probe?).count probe =
    livesOf probe map.entries := by
  have fired (due : List (Nat × DelayTask)) :
      livesOf probe (due.filterMap (fun entry => EventPoller.again DelayTask.call now entry.2)) +
        ((due.map Prod.snd).filterMap DelayTask.probe?).count probe = livesOf probe due := by
    induction due with
    | nil => rfl
    | cons timer rest ih =>
      have one := @lives_again probe now timer.2
      simp only [livesOf, List.map_cons, List.sum_cons] at ih ⊢
      cases more : EventPoller.again DelayTask.call now timer.2 <;>
        cases belongs : timer.2.probe? <;>
          simp [more, belongs, List.count_cons] at one ih ⊢ <;> omega
  rw [EventPoller.getMinDelay_eq, livesOf_perm EventPoller.flush_perm, livesOf_append]
  have parts := congrArg (livesOf probe) (map.upTo_append_beyond now)
  rw [livesOf_append, ← fired (map.upTo now)] at parts
  rw [← parts]
  simp only [EventPoller.flushDelayTask]
  omega

/-- The keep-alives of a probe that a poller has still to send. -/
def reserveAt (probe : Probe) (daemon : Daemon Poller) (poller : Poller) : Nat :=
  livesOf probe (daemon.posted poller) + livesOf probe (daemon.loops poller).map.entries +
    ((daemon.due poller).filterMap DelayTask.probe?).count probe

/-- The keep-alives of a probe still to come. -/
def reserve [Fintype Poller] (probe : Probe) (daemon : Daemon Poller) : Nat :=
  (daemon.startups.map (Startup.lives probe)).sum + ∑ poller, daemon.reserveAt probe poller

variable [Fintype Poller] {daemon after : Daemon Poller}

/-- A step on one poller pays for what it spends from that poller's reserve. -/
theorem reserve_moved {poller : Poller} {spent : Nat} (startups : after.startups = daemon.startups)
    (others : ∀ other, other ≠ poller → after.reserveAt probe other = daemon.reserveAt probe other)
    (here : spent + after.reserveAt probe poller = daemon.reserveAt probe poller) :
    spent + after.reserve probe = daemon.reserve probe := by
  classical
  have same : ∑ other ∈ Finset.univ.erase poller, after.reserveAt probe other =
      ∑ other ∈ Finset.univ.erase poller, daemon.reserveAt probe other :=
    Finset.sum_congr rfl (fun other member => others other (Finset.ne_of_mem_erase member))
  simp only [reserve, startups, ← Finset.sum_erase_add _ _ (Finset.mem_univ poller), same]
  omega

theorem reserve_congr (startups : after.startups = daemon.startups)
    (posted : after.posted = daemon.posted) (loops : after.loops = daemon.loops)
    (due : after.due = daemon.due) : after.reserve probe = daemon.reserve probe := by
  simp only [reserve, reserveAt, startups, posted, loops, due]

variable [DecidableEq Poller] {inet : InetText} {inet_ntoa : SockAddr → Bytes} {config : Config}

theorem reserve_doDelayTask (poller : Poller) (delay_ms : Nat) (task : DelayTask) :
    (daemon.doDelayTask poller delay_ms task).reserve probe =
      task.lives probe + daemon.reserve probe := by
  symm
  apply @reserve_moved _ probe _ (daemon.doDelayTask poller delay_ms task) daemon poller _ rfl
  · intro other different
    simp [reserveAt, doDelayTask, different]
  · simp only [reserveAt, doDelayTask, Function.update_self, livesOf_append]
    simp only [livesOf, List.map_cons, List.map_nil, List.sum_cons, List.sum_nil]
    omega

/-- A keep-alive is paid for from the reserve, which only a probe set off fills. -/
theorem paid_step (daemon : Daemon Poller) (event : DaemonEvent Poller) :
    (daemon.keepData event).count probe + (daemon.step inet inet_ntoa config event).reserve probe ≤
      daemon.reserve probe + 11 * (daemon.probes inet config event).count probe := by
  apply Nat.le_of_eq
  cases event with
  | main poller =>
    simp only [step, keepData, probes, List.count_nil, Nat.zero_add, Nat.mul_zero, Nat.add_zero]
    cases startups : daemon.startups with
    | nil => rfl
    | cons startup rest =>
      have less : daemon.reserve probe =
          startup.lives probe + { daemon with startups := rest }.reserve probe := by
        simp only [reserve, startups, List.map_cons, List.sum_cons, Nat.add_assoc]
        rfl
      cases startup with
      | act event =>
        rw [less, Startup.lives, Nat.zero_add]
        exact reserve_congr rfl rfl rfl rfl
      | doDelayTask delay_ms task =>
        rw [less, Startup.lives, ← reserve_doDelayTask poller delay_ms task]
        exact reserve_congr rfl rfl rfl rfl
  | receive | pollInterface | resume | handleCmd | runTask | elapse =>
    simp only [step, keepData, probes, List.count_nil, Nat.zero_add, Nat.mul_zero, Nat.add_zero]
    exact reserve_congr rfl rfl rfl rfl
  | examineItem index poller =>
    simp only [step, keepData, probes, List.count_nil, Nat.zero_add]
    cases examines : daemon.examined inet config index with
    | none => exact reserve_congr rfl rfl rfl rfl
    | some result =>
      obtain ⟨found, table, rest⟩ := result
      cases found with
      | none => exact reserve_congr rfl rfl rfl rfl
      | some asked =>
        have eleven : 11 * [asked].count probe = (DelayTask.keepData asked 10).lives probe := by
          by_cases other : asked = probe <;> simp [DelayTask.lives, other]
        simp only
        rw [eleven, Nat.add_comm, ← reserve_doDelayTask poller 1000 (.keepData asked 10)]
        exact reserve_congr rfl rfl rfl rfl
  | emplace poller index =>
    simp only [step, keepData, probes, List.count_nil, Nat.mul_zero, Nat.add_zero]
    split
    · rename_i timer idle picked
      apply @reserve_moved _ probe _ _ _ poller
      · rfl
      · intro other different
        simp [reserveAt, different]
      · obtain ⟨inside, rfl⟩ := List.getElem?_eq_some_iff.mp picked
        have taken := @livesOf_perm probe _ _ (List.getElem_cons_eraseIdx_perm inside)
        have placed := @livesOf_perm probe _ _ (@Multimap.emplace_perm _ _ _ (daemon.loops poller).map
          (daemon.posted poller)[index].1 (daemon.posted poller)[index].2)
        simp only [reserveAt, Function.update_self, EventPoller.Loop.step, placed, ← taken]
        simp only [livesOf, List.map_cons, List.sum_cons]
        omega
    · exact Nat.zero_add _
  | getMinDelay poller =>
    simp only [step, keepData, probes, List.count_nil, Nat.mul_zero, Nat.add_zero]
    split
    · rename_i idle
      apply @reserve_moved _ probe _ _ _ poller
      · rfl
      · intro other different
        simp [reserveAt, different]
      · have fired := @livesOf_flush probe daemon.station.ageing.now (daemon.loops poller).map
        simp only [reserveAt, Function.update_self, EventPoller.Loop.step, idle, List.filterMap_nil,
          List.count_nil]
        omega
    · exact Nat.zero_add _
  | runDelayTask poller enumeration =>
    simp only [step, keepData, probes, List.count_nil, Nat.mul_zero, Nat.add_zero]
    split
    · rename_i idle
      simp [idle]
    · rename_i task rest running
      apply @reserve_moved _ probe _ _ _ poller
      · rfl
      · intro other different
        simp [reserveAt, different, act]
      · cases belongs : task.probe? <;>
          simp [reserveAt, act, running, belongs, List.count_cons]
        omega

/-- A probe is not sent for ever: whatever a node receives and in whatever order its pollers
run, it sends at most eleven keep-alives for each time a peer list has set the probe off. -/
theorem probes_bounded (inet : InetText) (inet_ntoa : SockAddr → Bytes) (config : Config)
    (now : Nat) (enableP2p : Bool) (events : List (DaemonEvent Poller)) (probe : Probe) :
    (Execution.outputs (step inet inet_ntoa config) keepData (start config now enableP2p)
        events).count probe ≤
      11 * (Execution.outputs (step inet inet_ntoa config) (probes inet config)
        (start config now enableP2p) events).count probe := by
  let begun : Daemon Poller := start config now enableP2p
  have spent : (Execution.outputs (step inet inet_ntoa config) keepData begun events).count probe +
      (Execution.run (step inet inet_ntoa config) begun events).reserve probe ≤
      begun.reserve probe + 11 * (Execution.outputs (step inet inet_ntoa config) (probes inet config)
        begun events).count probe := Execution.count_outputs_le paid_step begun events
  have empty : begun.reserve probe = 0 := by
    cases enableP2p <;>
      simp [begun, start, reserve, reserveAt, livesOf, TalusVSwitch.startups, Startup.lives,
        DelayTask.lives, EventPoller.Loop.start]
  rw [empty, Nat.zero_add] at spent
  exact (Nat.le_add_right _ _).trans spent

end Probes

end Daemon

end TalusVSwitch
