import TalusVSwitch.DirectPath

namespace TalusVSwitch

universe u

/-- The frame a handler has in hand. -/
def Pending.bytes : Pending → Bytes
  | .forward received _ => received.buf.bytes
  | .broadcast buf => buf.bytes

namespace Station

variable {inet_ntoa : SockAddr → Bytes} {config : Config} {station : Station}

theorem resume_payload {enumeration : Enumeration} {task : Pending} {send : Send}
    (sent : send ∈ (resume config enumeration station task).2) : send.buf = task.bytes := by
  cases task with
  | forward received pktRecvPeer =>
    simp only [resume] at sent
    rcases VSwitch.forward_cases config enumeration station.ageing.now received pktRecvPeer
      station.table with nothing | ⟨_, _, _, ⟨_, peerInfo, _, one⟩ | ⟨_, copies⟩⟩
    · rw [nothing] at sent
      cases sent
    · rw [one, List.mem_singleton] at sent
      rw [sent]
      rfl
    · rw [copies] at sent
      obtain ⟨entry, _, _, rfl⟩ := mem_sendBroadcast sent
      rfl
  | broadcast buf =>
    obtain ⟨entry, _, _, rfl⟩ := mem_sendBroadcast sent
    rfl

/-- A payload no receiver writes to its TAP: too short, or without a destination. -/
def Internal (payload : Bytes) : Prop :=
  payload.length ≤ 12 ∨ Buffer.dMac ⟨payload, []⟩ = 0

theorem internal_header {payload : Bytes} (zero : macBytes 0 <+: payload) : Internal payload :=
  .inr (VSCtrlHelper.dMac_of_zero_prefix zero)

/-- What a node sends it has from its TAP, has in hand, or makes for another node alone. -/
theorem act_payload {event : StationEvent} {send : Send}
    (sent : send ∈ (station.act inet_ntoa config event).2) :
    send.buf ∈ event.injection ∨ (∃ task ∈ station.pending, send.buf = task.bytes) ∨
      Internal send.buf := by
  cases event with
  | pollInterface frame behind =>
    obtain ⟨_, _, result | ⟨peer, result⟩ | result⟩ :=
      pollInterface_cases config station ⟨frame, behind⟩
    · rw [act, result] at sent
      cases sent
    · rw [act, result, List.mem_singleton] at sent
      rw [sent]
      exact .inl (List.mem_singleton.mpr rfl)
    · rw [act, result] at sent
      cases sent
  | resume index enumeration =>
    simp only [act] at sent
    split at sent
    · cases sent
    · rename_i task picked
      exact .inr (.inl ⟨task, List.mem_of_getElem? picked, resume_payload sent⟩)
  | handleCmd index enumeration =>
    simp only [act] at sent
    split at sent
    · cases sent
    · obtain ⟨_, _, empty | zero⟩ := VSCtrlHelper.handleCmd_sends sent
      · exact .inr (.inr (.inl (by rw [empty]; exact Nat.zero_le _)))
      · exact .inr (.inr (internal_header zero))
  | keepLinks enumeration =>
    obtain ⟨entry, _, rfl⟩ := List.mem_map.mp sent
    exact .inr (.inr (.inl (Nat.le_of_eq rfl)))
  | probe mac addr =>
    rw [act, List.mem_singleton] at sent
    rw [sent]
    exact .inr (.inr (.inl (Nat.le_of_eq rfl)))
  | sendQueryPeers =>
    rw [act, List.mem_singleton] at sent
    rw [sent]
    exact .inr (.inr (internal_header (VSCtrlHelper.zero_prefix_header config .QueryPeers)))
  | sendQueryPeerInfo =>
    rw [act, List.mem_singleton] at sent
    rw [sent]
    exact .inr (.inr (internal_header (VSCtrlHelper.zero_prefix_header config .QueryPeerInfo)))
  | checkMac | runTask | elapse => cases sent

theorem act_inHand {event : StationEvent} {task : Pending}
    (queued : task ∈ (station.act inet_ntoa config event).1.pending) :
    task ∈ station.pending ∨ task.bytes ∈ event.injection := by
  cases event with
  | pollInterface frame behind =>
    obtain ⟨_, _, result | ⟨peer, result⟩ | result⟩ :=
      pollInterface_cases config station ⟨frame, behind⟩
    · rw [act, result] at queued
      exact .inl queued
    · rw [act, result] at queued
      exact .inl queued
    · rw [act, result] at queued
      rcases List.mem_append.mp queued with before | new
      · exact .inl before
      · rw [List.mem_singleton.mp new]
        exact .inr (List.mem_singleton.mpr rfl)
  | resume index enumeration =>
    simp only [act] at queued
    split at queued
    · exact .inl queued
    · rename_i current _
      obtain ⟨_, _, result, _⟩ := resume_cases config enumeration
        { station with pending := station.pending.eraseIdx index } current
      rw [result] at queued
      exact .inl (List.mem_of_mem_eraseIdx queued)
  | handleCmd index enumeration =>
    simp only [act] at queued
    split at queued <;> exact .inl queued
  | runTask index =>
    simp only [act] at queued
    exact .inl queued
  | keepLinks | probe | sendQueryPeers | sendQueryPeerInfo | checkMac | elapse => exact .inl queued

end Station

namespace Network

variable {Node : Type u}

/-- What a delivery writes to the TAP of its node. -/
def taps (config : Node → Config) (network : Network Node) : NetworkEvent Node → List (Node × Bytes)
  | .deliver index node behind =>
    match network.inflight[index]? with
    | none => []
    | some datagram =>
      match (Transport.classify ⟨datagram.payload, behind⟩ datagram.ttl).callback with
      | none => []
      | some received =>
        if VSwitch.writesTap (config node) received then [(node, received.buf.bytes)] else []
  | _ => []

/-- A payload that some node's TAP has injected, or that no TAP is to get. -/
def Genuine (network : Network Node) (payload : Bytes) : Prop :=
  (∃ sender, (sender, payload) ∈ network.injected) ∨ Station.Internal payload

/-- Whatever is under way is genuine. -/
structure Authentic (network : Network Node) : Prop where
  inflight : ∀ datagram ∈ network.inflight, network.Genuine datagram.payload
  inHand : ∀ node, ∀ task ∈ (network.stations node).pending, network.Genuine task.bytes

variable {inet_ntoa : SockAddr → Bytes} {config : Node → Config} {address : Node → SockAddr}
  {network : Network Node}

theorem Genuine.mono {later : Network Node} {payload : Bytes} (genuine : network.Genuine payload)
    (history : network.injected ⊆ later.injected) : later.Genuine payload := by
  rcases genuine with ⟨sender, injected⟩ | internal
  · exact .inl ⟨sender, history injected⟩
  · exact .inr internal

theorem authentic_start (clock : Node → Nat) : Authentic (start config clock) := by
  refine ⟨fun _ flying => ?_, fun _ _ queued => ?_⟩
  · cases flying
  · cases queued

variable [DecidableEq Node]

theorem authentic_step (network : Network Node) (event : NetworkEvent Node)
    (authentic : Authentic network) : Authentic (step inet_ntoa config address network event) := by
  cases event with
  | lose index =>
    exact ⟨fun datagram member => authentic.inflight datagram (List.mem_of_mem_eraseIdx member),
      authentic.inHand⟩
  | deliver index node behind =>
    simp only [step]
    cases picked : network.inflight[index]? with
    | none => exact authentic
    | some datagram =>
      refine ⟨fun other member => authentic.inflight other (List.mem_of_mem_eraseIdx member), ?_⟩
      intro other task queued
      by_cases here : other = node
      · subst here
        simp only [Function.update_self] at queued
        rcases Station.receive_pending queued with before | new
        · exact authentic.inHand other task before
        · rw [new]
          exact authentic.inflight datagram (List.mem_of_getElem? picked)
      · simp only [Function.update_of_ne here] at queued
        exact authentic.inHand other task queued
  | act node event =>
    have grows : network.injected ⊆
        (step inet_ntoa config address network (.act node event)).injected :=
      List.subset_append_right _ _
    have fresh {frame : Bytes} (injected : frame ∈ event.injection) :
        (step inet_ntoa config address network (.act node event)).Genuine frame :=
      .inl ⟨node, List.mem_append_left _ (List.mem_map_of_mem injected)⟩
    refine ⟨fun datagram flying => ?_, fun other task queued => ?_⟩
    · rcases List.mem_append.mp flying with before | new
      · exact (authentic.inflight datagram before).mono grows
      · obtain ⟨send, sent, rfl⟩ := List.mem_map.mp new
        rcases Station.act_payload sent with injected | ⟨task, queued, same⟩ | internal
        · exact fresh injected
        · have genuine := (authentic.inHand node task queued).mono grows
          rwa [← same] at genuine
        · exact .inr internal
    · by_cases here : other = node
      · subst here
        simp only [step, Function.update_self] at queued
        rcases Station.act_inHand queued with before | injected
        · exact (authentic.inHand other task before).mono grows
        · exact fresh injected
      · simp only [step, Function.update_of_ne here] at queued
        exact (authentic.inHand other task queued).mono grows

/-- The network makes up no traffic. In every state any run of the nodes reaches, with loss,
reordering, delivery to any node and any handlers in between, what the next step writes to a
TAP is a frame that some node's TAP has injected before, byte for byte: longer than a header,
for that node's MAC or for all, not from that MAC, and no command. -/
theorem tap_integrity (inet_ntoa : SockAddr → Bytes) (config : Node → Config)
    (address : Node → SockAddr) (clock : Node → Nat) (events : List (NetworkEvent Node))
    (event : NetworkEvent Node) (node : Node) (frame : Bytes) :
    let network := Execution.run (step inet_ntoa config address) (start config clock) events
    (node, frame) ∈ taps config network event →
      (∃ sender, (sender, frame) ∈ network.injected) ∧ 12 < frame.length ∧
      (Buffer.dMac ⟨frame, []⟩ = (config node).macLocal ∨ Buffer.dMac ⟨frame, []⟩ = MAC_BROADCAST) ∧
      Buffer.sMac ⟨frame, []⟩ ≠ (config node).macLocal ∧ Buffer.isTvsCmd ⟨frame, []⟩ = false := by
  intro network written
  have authentic : Authentic network :=
    Execution.run_invariant authentic_step (authentic_start clock) events
  cases event with
  | deliver index other behind =>
    simp only [taps] at written
    cases picked : network.inflight[index]? with
    | none =>
      rw [picked] at written
      cases written
    | some datagram =>
      simp only [picked, Transport.classify] at written
      by_cases addressed : Buffer.dMac ⟨datagram.payload, behind⟩ = 0
      · rw [if_pos addressed] at written
        cases written
      · simp only [if_neg addressed] at written
        split at written
        · rename_i writes
          obtain ⟨rfl, rfl⟩ := Prod.mk.inj (List.mem_singleton.mp written)
          simp only [VSwitch.writesTap, Bool.and_eq_true, Bool.not_eq_true', Bool.or_eq_true,
            beq_iff_eq, bne_iff_ne, decide_eq_true_eq] at writes
          obtain ⟨data, ⟨destination, source⟩, long⟩ := writes
          have header : 12 ≤ datagram.payload.length := Nat.le_of_lt long
          rw [Buffer.dMac_congr header] at addressed destination
          rw [Buffer.sMac_congr header] at source
          rw [Buffer.isTvsCmd_congr header] at data
          refine ⟨?_, long, destination, source, data⟩
          rcases authentic.inflight datagram (List.mem_of_getElem? picked) with
            injected | short | nowhere
          · exact injected
          · exact absurd long (Nat.not_lt.mpr short)
          · exact absurd nowhere addressed
        · cases written
  | lose | act => cases written

/-- A broadcast of one node, at the other. -/
theorem tap_integrity_pair :
    ∃ sender, (sender, pairFrame) ∈ (Execution.run (step (fun _ => []) pairConfig pairAddress)
      (start pairConfig (fun _ => 0)) [.act true (.pollInterface pairFrame [])]).injected :=
  (tap_integrity (fun _ => []) pairConfig pairAddress (fun _ => 0)
    [.act true (.pollInterface pairFrame [])] (.deliver 0 false []) false pairFrame
    (by decide +kernel)).1

end Network

end TalusVSwitch
