import TalusVSwitch.Integrity
import TalusVSwitch.KeepAlive
import TalusVSwitch.MacForms
import TalusVSwitch.Routing

/-! Why learned routes do not loop: an entry has a smaller TTL than that of the node it leads
to, all the way home. -/

namespace TalusVSwitch

universe u

/-- Entries of peers stay, with no smaller TTL. -/
def MacMap.Improves (before after : MacMap) : Prop :=
  ∀ mac peerInfo, mac ≠ MAC_BROADCAST → before.lookup mac = some peerInfo →
    ∃ better, after.lookup mac = some better ∧ peerInfo.ttl ≤ better.ttl

theorem MacMap.Improves.of_same {before after : MacMap}
    (same : ∀ mac, mac ≠ MAC_BROADCAST → after.lookup mac = before.lookup mac) :
    MacMap.Improves before after :=
  fun mac peerInfo other found => ⟨peerInfo, (same mac other).trans found, UInt8.le_refl _⟩

theorem VSwitch.improves_learnFrom {config : Config} {now : Nat} {buf : Buffer} {peer : SockAddr}
    {ttl : UInt8} {table : MacMap} :
    MacMap.Improves table (learnFrom config now buf peer ttl table) := by
  by_cases learns : Learns config buf
  · rw [learnFrom_of_learns learns]
    intro mac peerInfo other found
    by_cases own : mac = buf.sMac
    · subst own
      refine ⟨peerInfo.learn now peer ttl, by simp [found], ?_⟩
      rcases peerInfo.learn_cases now peer ttl with
        ⟨_, learned⟩ | ⟨_, better, learned⟩ | ⟨_, _, learned⟩
      · rw [learned]
        exact UInt8.le_refl _
      · rw [learned]
        exact better
      · rw [learned]
        exact UInt8.le_refl _
    · exact ⟨peerInfo, by rw [MacMap.lookup_addMacPeer_ne own, found], UInt8.le_refl _⟩
  · rw [learnFrom_of_not_learns learns]
    exact .of_same fun _ _ => rfl

/-- A frame of a source that others learn from. -/
structure Sourced (payload : Bytes) (mac : Mac) : Prop where
  header : 12 ≤ payload.length
  addressed : Buffer.dMac ⟨payload, []⟩ ≠ 0
  data : Buffer.isTvsCmd ⟨payload, []⟩ = false
  source : Buffer.sMac ⟨payload, []⟩ = mac

theorem Sourced.learns {payload behind : Bytes} {mac : Mac} {config : Config}
    (header : 12 ≤ payload.length) (learns : VSwitch.Learns config ⟨payload, behind⟩)
    (source : Buffer.sMac ⟨payload, behind⟩ = mac) : Sourced payload mac := by
  have addressed := learns.addressed
  have data := learns.data
  rw [Buffer.dMac_congr header] at addressed
  rw [Buffer.isTvsCmd_congr header] at data
  rw [Buffer.sMac_congr header] at source
  exact ⟨header, addressed, data, source⟩

namespace Station

variable {inet_ntoa : SockAddr → Bytes} {config : Config} {station : Station}

/-- A step of a node that reads no frame with a foreign source from its TAP and removes no
entry. -/
def Orderly (inet_ntoa : SockAddr → Bytes) (config : Config) (station : Station) :
    StationEvent → Prop
  | .pollInterface frame _ => Buffer.sMac ⟨frame, []⟩ = config.macLocal
  | .runTask index => (station.act inet_ntoa config (.runTask index)).1.table = station.table
  | _ => True

instance : DecidablePred (station.Orderly inet_ntoa config)
  | .pollInterface frame _ =>
    inferInstanceAs (Decidable (Buffer.sMac ⟨frame, []⟩ = config.macLocal))
  | .runTask index => inferInstanceAs
      (Decidable ((station.act inet_ntoa config (.runTask index)).1.table = station.table))
  | .resume .. | .handleCmd .. | .keepLinks _ | .probe .. | .sendQueryPeers | .sendQueryPeerInfo
  | .checkMac _ | .elapse _ => isTrue trivial

theorem sMac_sendKeepData (key : config.macLocal.toNat % 65536 = 0) (mac : Mac) (addr : SockAddr) :
    Buffer.sMac ⟨(sendKeepData config mac addr 0).buf, []⟩ = config.macLocal := by
  have loaded := load64_macOfBytes (length_macBytes config.macLocal) (macBytes mac) [] []
  rwa [length_macBytes, List.append_nil, macOfBytes_macBytes key] at loaded

/-- Where the frames of others that a node sends come from: what it has received, or its own
frames and keep-alives. -/
theorem act_sourced (key : config.macLocal.toNat % 65536 = 0) (live : 1 ≤ config.sendTtl)
    {event : StationEvent} {send : Send} (sent : send ∈ (station.act inet_ntoa config event).2)
    {mac : Mac} (sourced : Sourced send.buf mac) :
    (∃ received peer, .forward received peer ∈ station.pending ∧
      send.buf = received.buf.bytes ∧ send.ttl < received.ttl) ∨
    (send.ttl ≤ config.sendTtl ∧ (mac = config.macLocal ∨ send.buf ∈ event.injection ∨
      ∃ buf, .broadcast buf ∈ station.pending ∧ send.buf = buf.bytes)) := by
  have internal (zero : macBytes 0 <+: send.buf) : False :=
    sourced.addressed (VSCtrlHelper.dMac_of_zero_prefix zero)
  have kept (other : Mac) (addr : SockAddr) (same : send = sendKeepData config other addr 0) :
      send.ttl ≤ config.sendTtl ∧ (mac = config.macLocal ∨ send.buf ∈ event.injection ∨
        ∃ buf, .broadcast buf ∈ station.pending ∧ send.buf = buf.bytes) := by
    have source := sourced.source
    rw [same, sMac_sendKeepData key] at source
    refine ⟨?_, .inl source.symm⟩
    rw [same]
    exact UInt8.zero_le
  cases event with
  | pollInterface frame behind =>
    right
    obtain ⟨_, _, result | ⟨peer, result⟩ | result⟩ :=
      pollInterface_cases config station ⟨frame, behind⟩
    · rw [act, result] at sent
      cases sent
    · rw [act, result, List.mem_singleton] at sent
      rw [sent]
      exact ⟨UInt8.le_refl _, .inr (.inl (List.mem_singleton.mpr rfl))⟩
    · rw [act, result] at sent
      cases sent
  | resume index enumeration =>
    simp only [act] at sent
    split at sent
    · cases sent
    · rename_i task picked
      have same := resume_payload sent
      cases task with
      | forward received peer =>
        left
        simp only [resume] at sent
        refine ⟨received, peer, List.mem_of_getElem? picked, same, ?_⟩
        exact VSwitch.forward_ttl sent
      | broadcast buf =>
        right
        simp only [resume] at sent
        obtain ⟨entry, _, _, copied⟩ := mem_sendBroadcast sent
        refine ⟨?_, .inr (.inr ⟨buf, List.mem_of_getElem? picked, same⟩)⟩
        rw [copied]
        exact UInt8.le_of_lt (broadcastTtl_lt (ttl_ne_zero live))
  | handleCmd index enumeration =>
    simp only [act] at sent
    split at sent
    · cases sent
    · obtain ⟨_, _, empty | zero⟩ := VSCtrlHelper.handleCmd_sends sent
      · have header := sourced.header
        rw [empty] at header
        exact absurd header (by decide)
      · exact (internal zero).elim
  | keepLinks enumeration =>
    obtain ⟨entry, _, same⟩ := List.mem_map.mp sent
    exact .inr (kept _ _ same.symm)
  | probe other addr => exact .inr (kept _ _ (List.mem_singleton.mp sent))
  | sendQueryPeers =>
    rw [act, List.mem_singleton] at sent
    rw [sent] at internal
    exact (internal (VSCtrlHelper.zero_prefix_header config .QueryPeers)).elim
  | sendQueryPeerInfo =>
    rw [act, List.mem_singleton] at sent
    rw [sent] at internal
    exact (internal (VSCtrlHelper.zero_prefix_header config .QueryPeerInfo)).elim
  | checkMac | runTask | elapse => cases sent

end Station

namespace Network

variable {Node : Type u}

section Definitions

variable (inet_ntoa : SockAddr → Bytes) (config : Node → Config) (address : Node → SockAddr)
  (network : Network Node)

/-- The entry a node has for the MAC of another one. -/
def entry (node owner : Node) : Option MacPeer :=
  (network.stations node).table.lookup (config owner).macLocal

/-- The owner of a MAC, or a node with a better entry for it. -/
def Nearer (owner : Node) (ttl : UInt8) (node : Node) : Prop :=
  node = owner ∨ ∃ peerInfo, network.entry config node owner = some peerInfo ∧ ttl < peerInfo.ttl

/-- A TTL that the owner can have sent, at the address of a node nearer to it. -/
def Uphill (owner : Node) (ttl : UInt8) (sock : SockAddr) : Prop :=
  ttl ≤ (config owner).sendTtl ∧
    ∃ next, sock = address next ∧ network.Nearer config owner ttl next

/-- Entries and datagrams come from nearer to their source, and what a node has in hand it has
an entry for that is as good. -/
structure Graded : Prop where
  entries : ∀ node owner peerInfo, node ≠ owner → network.entry config node owner = some peerInfo →
    network.Uphill config address owner peerInfo.ttl peerInfo.sock
  inflight : ∀ datagram ∈ network.inflight, ∀ owner,
    Sourced datagram.payload (config owner).macLocal →
      network.Uphill config address owner datagram.ttl datagram.src
  forwards : ∀ node received peer, .forward received peer ∈ (network.stations node).pending →
    ∀ owner, Sourced received.buf.bytes (config owner).macLocal →
      received.ttl ≤ (config owner).sendTtl ∧ (node = owner ∨ ∃ peerInfo,
        network.entry config node owner = some peerInfo ∧ received.ttl ≤ peerInfo.ttl)
  broadcasts : ∀ node buf, .broadcast buf ∈ (network.stations node).pending →
    Buffer.sMac ⟨buf.bytes, []⟩ = (config node).macLocal

/-- A step in which no datagram is cut short, or refreshes an entry with a greater TTL than
the entry has. -/
def Orderly : NetworkEvent Node → Prop
  | .lose _ => True
  | .act node event => (network.stations node).Orderly inet_ntoa (config node) event
  | .deliver index node behind => ∀ datagram ∈ network.inflight[index]?,
      12 ≤ datagram.payload.length ∧ ∀ peerInfo ∈ (network.stations node).table.lookup
        (Buffer.sMac ⟨datagram.payload, behind⟩), compareSockAddr peerInfo.sock datagram.src = true →
          datagram.ttl ≤ peerInfo.ttl

instance : DecidablePred (network.Orderly inet_ntoa config)
  | .lose _ => isTrue trivial
  | .act node event =>
    inferInstanceAs (Decidable ((network.stations node).Orderly inet_ntoa (config node) event))
  | .deliver index node behind => inferInstanceAs (Decidable (∀ datagram ∈ network.inflight[index]?,
      12 ≤ datagram.payload.length ∧ ∀ peerInfo ∈ (network.stations node).table.lookup
        (Buffer.sMac ⟨datagram.payload, behind⟩), compareSockAddr peerInfo.sock datagram.src = true →
          datagram.ttl ≤ peerInfo.ttl))

/-- MACs that tell the nodes apart. -/
structure OwnMacs : Prop where
  distinct : Function.Injective (fun node => (config node).macLocal)
  key : ∀ node, (config node).macLocal.toNat % 65536 = 0
  unicast : ∀ node, (config node).macLocal ≠ MAC_BROADCAST
  live : ∀ node, 1 ≤ (config node).sendTtl

end Definitions

variable {inet_ntoa : SockAddr → Bytes} {config : Node → Config} {address : Node → SockAddr}
  {network after : Network Node}

theorem entry_improves (macs : OwnMacs config) {node owner : Node} {peerInfo : MacPeer}
    (improves : MacMap.Improves (network.stations node).table (after.stations node).table)
    (stored : network.entry config node owner = some peerInfo) :
    ∃ better, after.entry config node owner = some better ∧ peerInfo.ttl ≤ better.ttl :=
  improves _ peerInfo (macs.unicast owner) stored

theorem Uphill.mono (macs : OwnMacs config)
    (improves : ∀ node, MacMap.Improves (network.stations node).table (after.stations node).table)
    {owner : Node} {ttl : UInt8} {sock : SockAddr}
    (uphill : network.Uphill config address owner ttl sock) :
    after.Uphill config address owner ttl sock := by
  obtain ⟨within, next, at_next, own | ⟨peerInfo, stored, less⟩⟩ := uphill
  · exact ⟨within, next, at_next, .inl own⟩
  · obtain ⟨better, kept, more⟩ := entry_improves macs (improves next) stored
    exact ⟨within, next, at_next, .inr ⟨better, kept, UInt8.lt_of_lt_of_le less more⟩⟩

variable [DecidableEq Node]

theorem improves_step {event : NetworkEvent Node}
    (orderly : network.Orderly inet_ntoa config event) (node : Node) :
    MacMap.Improves (network.stations node).table
      ((step inet_ntoa config address network event).stations node).table := by
  have same : MacMap.Improves (network.stations node).table (network.stations node).table :=
    .of_same fun _ _ => rfl
  cases event with
  | lose index => exact same
  | deliver index other behind =>
    cases picked : network.inflight[index]? with
    | none =>
      simp only [step, picked]
      exact same
    | some datagram =>
      simp only [step, picked]
      by_cases here : node = other
      · subst here
        simp only [Function.update_self, Station.receive_table]
        exact VSwitch.improves_learnFrom
      · simp only [Function.update_of_ne here]
        exact same
  | act other event =>
    by_cases here : node = other
    · subst here
      simp only [step, Function.update_self]
      apply MacMap.Improves.of_same
      intro mac unicast
      by_cases quiet : Station.Ages event
      · cases event with
        | runTask index =>
          have kept : _ = (network.stations node).table := orderly
          rw [kept]
        | checkMac | elapse => rfl
        | _ => cases quiet
      · exact (Station.act_quiet quiet unicast).1
    · simp only [step, Function.update_of_ne here]
      exact same

/-- What a node has learned from a datagram is as good as the datagram. -/
theorem learned_at_least {config : Config} {now : Nat} {payload behind : Bytes} {peer : SockAddr}
    {ttl : UInt8} {table : MacMap} (learns : VSwitch.Learns config ⟨payload, behind⟩)
    (within : ∀ peerInfo, table.lookup (Buffer.sMac ⟨payload, behind⟩) = some peerInfo →
      compareSockAddr peerInfo.sock peer = true → ttl ≤ peerInfo.ttl) :
    ∃ peerInfo, (VSwitch.learnFrom config now ⟨payload, behind⟩ peer ttl table).lookup
      (Buffer.sMac ⟨payload, behind⟩) = some peerInfo ∧ ttl ≤ peerInfo.ttl := by
  rw [VSwitch.learnFrom_of_learns learns]
  cases stored : table.lookup (Buffer.sMac ⟨payload, behind⟩) with
  | none => exact ⟨_, MacMap.lookup_addMacPeer_absent stored, UInt8.le_refl _⟩
  | some before =>
    refine ⟨before.learn now peer ttl, by simp [stored], ?_⟩
    rcases before.learn_cases now peer ttl with
      ⟨same, learned⟩ | ⟨_, _, learned⟩ | ⟨_, worse, learned⟩
    · rw [learned]
      exact within before stored same
    · rw [learned]
      exact UInt8.le_refl _
    · rw [learned]
      exact UInt8.le_of_lt worse

omit [DecidableEq Node] in
theorem graded_start (clock : Node → Nat) (macs : OwnMacs config) :
    (start config clock).Graded config address := by
  refine ⟨fun node owner peerInfo _ stored => ?_, fun _ flying => ?_, fun _ _ _ queued => ?_,
    fun _ _ queued => ?_⟩
  · simp only [entry, start, Station.start_lookup_ne (macs.unicast owner)] at stored
    cases stored
  · cases flying
  · cases queued
  · cases queued

theorem graded_act (macs : OwnMacs config) (graded : network.Graded config address) {node : Node}
    {event : StationEvent} (orderly : network.Orderly inet_ntoa config (.act node event)) :
    (step inet_ntoa config address network (.act node event)).Graded config address := by
  have improves := fun other => @improves_step _ inet_ntoa config address network _ _ orderly other
  have acted := Station.act_acted inet_ntoa (config node) (network.stations node) event
  have own {frame : Bytes} (injected : frame ∈ event.injection) :
      Buffer.sMac ⟨frame, []⟩ = (config node).macLocal := by
    cases event with
    | pollInterface injection behind =>
      rw [List.mem_singleton.mp injected]
      exact orderly
    | _ => cases injected
  refine ⟨?_, ?_, ?_, ?_⟩
  · intro other owner peerInfo different stored
    apply Uphill.mono macs improves
    apply graded.entries other owner peerInfo different
    by_cases here : other = node
    · subst here
      simp only [entry, step, Function.update_self] at stored
      exact acted.entries _ peerInfo (macs.unicast owner) stored
    · simpa only [entry, step, Function.update_of_ne here] using stored
  · intro datagram flying owner sourced
    apply Uphill.mono macs improves
    rcases List.mem_append.mp flying with before | new
    · exact graded.inflight datagram before owner sourced
    · obtain ⟨send, sent, rfl⟩ := List.mem_map.mp new
      rcases Station.act_sourced (macs.key node) (macs.live node) sent sourced with
        ⟨received, peer, queued, same, less⟩ | ⟨within, mine⟩
      · simp only [same] at sourced
        obtain ⟨bound, own | ⟨peerInfo, stored, more⟩⟩ :=
          graded.forwards node received peer queued owner sourced
        · exact ⟨UInt8.le_trans (UInt8.le_of_lt less) bound, node, rfl, .inl own⟩
        · exact ⟨UInt8.le_trans (UInt8.le_of_lt less) bound, node, rfl,
            .inr ⟨peerInfo, stored, UInt8.lt_of_lt_of_le less more⟩⟩
      · have source := sourced.source
        have owned : (config owner).macLocal = (config node).macLocal := by
          rcases mine with same | injected | ⟨buf, queued, same⟩
          · exact same
          · exact source.symm.trans (own injected)
          · simp only [same] at source
            exact source.symm.trans (graded.broadcasts node buf queued)
        obtain rfl := macs.distinct owned
        exact ⟨within, owner, rfl, .inl rfl⟩
  · intro other received peer queued owner sourced
    have before : .forward received peer ∈ (network.stations other).pending := by
      by_cases here : other = node
      · subst here
        simp only [step, Function.update_self] at queued
        rcases acted.pending _ queued with before | ⟨buf, new⟩
        · exact before
        · cases new
      · simpa only [step, Function.update_of_ne here] using queued
    obtain ⟨bound, own | ⟨peerInfo, stored, more⟩⟩ :=
      graded.forwards other received peer before owner sourced
    · exact ⟨bound, .inl own⟩
    · obtain ⟨better, kept, best⟩ := entry_improves macs (improves other) stored
      exact ⟨bound, .inr ⟨better, kept, UInt8.le_trans more best⟩⟩
  · intro other buf queued
    by_cases here : other = node
    · subst here
      simp only [step, Function.update_self] at queued
      rcases Station.act_inHand queued with before | injected
      · exact graded.broadcasts other buf before
      · exact own injected
    · simp only [step, Function.update_of_ne here] at queued
      exact graded.broadcasts other buf queued

theorem graded_deliver (macs : OwnMacs config) (graded : network.Graded config address) {index : Nat}
    {node : Node} {behind : Bytes}
    (orderly : network.Orderly inet_ntoa config (.deliver index node behind)) :
    (step inet_ntoa config address network (.deliver index node behind)).Graded config address := by
  have improves := fun other => @improves_step _ inet_ntoa config address network _ _ orderly other
  cases picked : network.inflight[index]? with
  | none =>
    simp only [step, picked]
    exact graded
  | some datagram =>
    obtain ⟨header, within⟩ := orderly datagram picked
    have flying := List.mem_of_getElem? picked
    refine ⟨?_, ?_, ?_, ?_⟩
    · intro other owner peerInfo different stored
      apply Uphill.mono macs improves
      by_cases here : other = node
      · subst here
        simp only [entry, step, picked, Function.update_self, Station.receive_table] at stored
        rcases VSwitch.learnFrom_entry stored with
          ⟨before, found, sock, ttl⟩ | ⟨learns, source, sock, ttl, _⟩
        · rw [sock, ttl]
          exact graded.entries other owner before different found
        · rw [sock, ttl]
          exact graded.inflight datagram flying owner (.learns header learns source.symm)
      · simp only [entry, step, picked, Function.update_of_ne here] at stored
        exact graded.entries other owner peerInfo different stored
    · intro other remaining owner sourced
      apply Uphill.mono macs improves
      simp only [step, picked] at remaining
      exact graded.inflight other (List.mem_of_mem_eraseIdx remaining) owner sourced
    · intro other received peer queued owner sourced
      have kept (before : .forward received peer ∈ (network.stations other).pending) :
          received.ttl ≤ (config owner).sendTtl ∧ (other = owner ∨ ∃ peerInfo,
            (step inet_ntoa config address network (.deliver index node behind)).entry config other
              owner = some peerInfo ∧ received.ttl ≤ peerInfo.ttl) := by
        obtain ⟨bound, own | ⟨peerInfo, stored, more⟩⟩ :=
          graded.forwards other received peer before owner sourced
        · exact ⟨bound, .inl own⟩
        · obtain ⟨better, kept, best⟩ := entry_improves macs (improves other) stored
          exact ⟨bound, .inr ⟨better, kept, UInt8.le_trans more best⟩⟩
      by_cases here : other = node
      · subst here
        simp only [step, picked, Function.update_self] at queued
        rcases Station.receive_pending queued with before | new
        · exact kept before
        · cases new
          refine ⟨(graded.inflight datagram flying owner sourced).1, ?_⟩
          by_cases own : other = owner
          · exact .inl own
          · right
            have source : Buffer.sMac ⟨datagram.payload, behind⟩ = (config owner).macLocal := by
              rw [Buffer.sMac_congr header]
              exact sourced.source
            have learns : VSwitch.Learns (config other) ⟨datagram.payload, behind⟩ := by
              refine ⟨?_, ?_, ?_, ?_⟩
              · rw [Buffer.dMac_congr header]
                exact sourced.addressed
              · rw [Buffer.isTvsCmd_congr header]
                exact sourced.data
              · rw [source]
                exact macs.unicast owner
              · rw [source]
                exact fun same => own (macs.distinct same).symm
            have learned := @learned_at_least _ (network.stations other).ageing.now _ _ datagram.src
              datagram.ttl (network.stations other).table learns within
            rw [source] at learned
            simp only [entry, step, picked, Function.update_self, Station.receive_table]
            exact learned
      · simp only [step, picked, Function.update_of_ne here] at queued
        exact kept queued
    · intro other buf queued
      by_cases here : other = node
      · subst here
        simp only [step, picked, Function.update_self] at queued
        rcases Station.receive_pending queued with before | new
        · exact graded.broadcasts other buf before
        · cases new
      · simp only [step, picked, Function.update_of_ne here] at queued
        exact graded.broadcasts other buf queued

theorem graded_step (macs : OwnMacs config) (network : Network Node) (event : NetworkEvent Node)
    (orderly : network.Orderly inet_ntoa config event) (graded : network.Graded config address) :
    (step inet_ntoa config address network event).Graded config address := by
  cases event with
  | deliver => exact graded_deliver macs graded orderly
  | act => exact graded_act macs graded orderly
  | lose index =>
    exact ⟨graded.entries, fun datagram remaining =>
      graded.inflight datagram (List.mem_of_mem_eraseIdx remaining), graded.forwards,
      graded.broadcasts⟩

/-- Where a node sends the frames for another one's MAC. -/
def nextHop (network : Network Node) (config : Node → Config) (host : SockAddr → Option Node)
    (owner node : Node) : Option Node :=
  (network.entry config node owner).bind (fun peerInfo => host peerInfo.sock)

/-- Learned routes lead home. In every state that a run of orderly steps reaches, with loss,
reordering and delivery to any node, the next hops from a node that has an entry for another
one's MAC get to that node, without a loop, in no more hops than the TTL of the entry is below
the TTL its owner sends with, and one. -/
theorem routes_lead_home (inet_ntoa : SockAddr → Bytes) {config : Node → Config}
    (address : Node → SockAddr) (host : SockAddr → Option Node)
    (hosted : ∀ node, host (address node) = some node) (macs : OwnMacs config) (clock : Node → Nat)
    {events : List (NetworkEvent Node)}
    (orderly : Execution.EveryStep (step inet_ntoa config address)
      (Network.Orderly inet_ntoa config) (start config clock) events) :
    let network := Execution.run (step inet_ntoa config address) (start config clock) events
    ∀ node owner peerInfo, node ≠ owner → network.entry config node owner = some peerInfo →
      ∃ count, 0 < count ∧ count + peerInfo.ttl.toNat ≤ (config owner).sendTtl.toNat + 1 ∧
        Walk.hops (network.nextHop config host owner) count node = some owner := by
  intro network node owner peerInfo different stored
  have graded : network.Graded config address :=
    Execution.EveryStep.preserves (graded_step macs) (graded_start clock macs) orderly
  let height (node : Node) : Option Nat :=
    if node = owner then none
    else (network.entry config node owner).map (fun peerInfo => peerInfo.ttl.toNat)
  apply @Walk.hops_of_climbs _ (network.nextHop config host owner) owner height
    (config owner).sendTtl.toNat
  · intro lower low here
    simp only [height] at here
    split at here
    · cases here
    · rename_i away
      obtain ⟨found, entered, rfl⟩ := Option.map_eq_some_iff.mp here
      obtain ⟨within, next, at_next, nearer⟩ := graded.entries lower owner found away entered
      refine ⟨UInt8.le_iff_toNat_le.mp within, next, ?_, ?_⟩
      · rw [nextHop, entered, Option.bind_some, at_next, hosted]
      · by_cases home : next = owner
        · exact .inl home
        · obtain ⟨better, there, more⟩ := nearer.resolve_left home
          refine .inr ⟨better.ttl.toNat, ?_, UInt8.lt_iff_toNat_lt.mp more⟩
          simp only [height, if_neg home, there, Option.map_some]
  · simp only [height, if_neg different, stored, Option.map_some]

/-- A broadcast that reached a node by the core. -/
theorem routes_lead_home_via_core :
    let frame : Bytes := [255, 255, 255, 255, 255, 255, 2, 0, 0, 0, 0, 0, 8, 0]
    let address (node : Fin 3) : SockAddr :=
      [.inet 1 9001, .inet 2 9001, .inet 3 9001].getD node.val .unspec
    let network := Execution.run (step (fun _ => []) Routes.viaCore.config address)
      (start Routes.viaCore.config (fun _ => 0))
      [.act 2 (.keepLinks .stored), .deliver 0 1 [], .act 0 (.pollInterface frame []),
        .deliver 0 1 [], .act 1 (.resume 0 .stored), .act 1 (.resume 0 .stored), .deliver 0 2 []]
    ∃ count, 0 < count ∧ count + 0 ≤ 8 + 1 ∧
      Walk.hops (network.nextHop Routes.viaCore.config Routes.viaCore.host 0) count 2 = some 0 := by
  intro frame address network
  have macs : OwnMacs Routes.viaCore.config := by
    refine ⟨?_, by decide, by decide, by decide⟩
    intro node other
    revert node other
    decide
  exact routes_lead_home (fun _ => []) address Routes.viaCore.host (by decide) macs (fun _ => 0)
    (by decide +kernel)
    2 0 ⟨.inet 2 9001, 0, 0⟩ (by decide) (by decide +kernel)

end Network

end TalusVSwitch
