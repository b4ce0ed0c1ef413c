import Mathlib.Data.List.Perm.Basic
import TalusVSwitch.Library.Execution
import TalusVSwitch.VSwitch

/-! The copies of one frame, from the TAP it is injected at through every handler
that relays it. The tables are whatever a handler happens to find: other traffic
may change them between any two critical sections. -/

namespace TalusVSwitch

universe u

/-- One call of a handler: the node, the tables its two critical sections find, the
source address it sees, and the memory behind its buffer. -/
structure Visit (Node : Type u) where
  node : Node
  enumeration : Enumeration := .stored
  now : Nat := 0
  table : MacMap
  later : MacMap
  pktRecvPeer : SockAddr := .unspec
  behind : Bytes := []

/-- A datagram in flight. -/
structure Copy (Node : Type u) where
  sender : Node
  send : Send

/-- Everything about the copies of one frame at one moment. -/
structure Flight (Node : Type u) where
  inflight : List (Copy Node)
  /-- The TAP writes so far. -/
  taps : List (Node × Bytes)
  /-- The number of copies ever sent. -/
  sent : Nat
  /-- The TTL received and the TTL emitted, for each copy emitted on a reception. -/
  relayed : List (UInt8 × UInt8)
  /-- The largest table seen at a node that sent a copy. -/
  widest : Nat

inductive FlightEvent (Node : Type u) where
  | deliver (index : Nat) (visit : Visit Node)
  | lose (index : Nat)

/-- The larger of the two tables a handler sees. -/
def Visit.width {Node : Type u} (visit : Visit Node) : Nat :=
  max visit.table.entries.length visit.later.entries.length

namespace Flight

variable {Node : Type u} (config : Node → Config)

def sends (flight : Flight Node) : List Send := flight.inflight.map Copy.send

/-- `pollInterface` on the frame read from a TAP. -/
def inject (frame : Bytes) (visit : Visit Node) : Flight Node :=
  let sends := (VSwitch.pollInterface (config visit.node) visit.enumeration visit.now
    (fun _ => visit.later) ⟨frame, visit.behind⟩ visit.table).2
  { inflight := sends.map (Copy.mk visit.node)
    taps := []
    sent := sends.length
    relayed := []
    widest := if sends.isEmpty then 0 else visit.width }

/-- The receive lambda on a copy that arrives, as `setOnRead` decodes it. -/
def react (visit : Visit Node) (send : Send) : Reaction :=
  VSwitch.onDatagram (config visit.node) visit.enumeration visit.now (fun _ => visit.later)
    ⟨send.buf, visit.behind⟩ visit.pktRecvPeer send.ttl visit.table

def step (flight : Flight Node) : FlightEvent Node → Flight Node
  | .deliver index visit =>
    match flight.inflight[index]? with
    | none => flight
    | some copy =>
      -- a datagram to port 0 is never delivered
      if copy.send.addr.inet_port = 0 then flight
      else
        let reaction := react config visit copy.send
        { inflight := flight.inflight.eraseIdx index ++ reaction.sends.map (Copy.mk visit.node)
          taps := flight.taps ++ reaction.tap.map (Prod.mk visit.node)
          sent := flight.sent + reaction.sends.length
          relayed := flight.relayed ++ reaction.sends.map (fun send => (copy.send.ttl, send.ttl))
          widest := if reaction.sends.isEmpty then flight.widest
            else max flight.widest visit.width }
  | .lose index => { flight with inflight := flight.inflight.eraseIdx index }

variable {config} {flight : Flight Node}

theorem send_of_copies (node : Node) (sent : List Send) :
    (sent.map (Copy.mk node)).map Copy.send = sent := by
  rw [List.map_map]
  exact List.map_id sent

theorem inject_sends (frame : Bytes) (visit : Visit Node) :
    (inject config frame visit).sends =
      (VSwitch.pollInterface (config visit.node) visit.enumeration visit.now (fun _ => visit.later)
        ⟨frame, visit.behind⟩ visit.table).2 :=
  send_of_copies _ _

theorem deliver_cases (config : Node → Config) (flight : Flight Node) (index : Nat)
    (visit : Visit Node) :
    step config flight (.deliver index visit) = flight ∨
    ∃ copy rest, flight.inflight[index]? = some copy ∧ copy.send.addr.inet_port ≠ 0 ∧
      rest = flight.inflight.eraseIdx index ∧ flight.inflight.Perm (copy :: rest) ∧
      step config flight (.deliver index visit) =
        { inflight := rest ++ (react config visit copy.send).sends.map (Copy.mk visit.node)
          taps := flight.taps ++ (react config visit copy.send).tap.map (Prod.mk visit.node)
          sent := flight.sent + (react config visit copy.send).sends.length
          relayed := flight.relayed ++
            (react config visit copy.send).sends.map (fun send => (copy.send.ttl, send.ttl))
          widest := if (react config visit copy.send).sends.isEmpty then flight.widest
            else max flight.widest visit.width } := by
  cases picked : flight.inflight[index]? with
  | none => exact .inl (by simp only [step, picked])
  | some copy =>
    by_cases unsendable : copy.send.addr.inet_port = 0
    · exact .inl (by simp only [step, picked, unsendable, if_true])
    · obtain ⟨below, same⟩ := List.getElem?_eq_some_iff.mp picked
      refine .inr ⟨copy, _, rfl, unsendable, rfl, ?_, ?_⟩
      · rw [← same]
        exact (List.getElem_cons_eraseIdx_perm below).symm
      · simp only [step, picked, unsendable, if_false]

theorem lose_cases (config : Node → Config) (flight : Flight Node) (index : Nat) :
    step config flight (.lose index) = flight ∨
    ∃ copy rest, flight.inflight[index]? = some copy ∧ flight.inflight.Perm (copy :: rest) ∧
      step config flight (.lose index) = { flight with inflight := rest } := by
  rcases Nat.lt_or_ge index flight.inflight.length with below | beyond
  · exact .inr ⟨_, _, List.getElem?_eq_getElem below,
      (List.getElem_cons_eraseIdx_perm below).symm, rfl⟩
  · left
    simp only [step, List.eraseIdx_of_length_le beyond]

theorem mem_of_picked {copy : Copy Node} {index : Nat}
    (picked : flight.inflight[index]? = some copy) : copy.send ∈ flight.sends :=
  List.mem_map_of_mem (List.mem_of_getElem? picked)

/-- A handler sends on the bytes it was given. -/
theorem react_buf {visit : Visit Node} {received send : Send}
    (sent : send ∈ (react config visit received).sends) : send.buf = received.buf := by
  rcases VSwitch.onDatagram_cases (config visit.node) visit.enumeration visit.now
      (fun _ => visit.later) ⟨received.buf, visit.behind⟩ visit.pktRecvPeer received.ttl
      visit.table with nothing | ⟨_, _, _, ⟨_, peerInfo, _, one⟩ | ⟨_, copies⟩⟩
  · simp [react, nothing] at sent
  · simp only [react, one, List.mem_singleton] at sent
    rw [sent]
  · simp only [react, copies] at sent
    obtain ⟨entry, _, _, rfl⟩ := mem_sendBroadcast sent
    rfl

/-- Every copy in flight carries the frame. -/
def Carries (frame : Bytes) (flight : Flight Node) : Prop :=
  ∀ send ∈ flight.sends, send.buf = frame

theorem inject_carries (frame : Bytes) (visit : Visit Node) :
    Carries frame (inject config frame visit) := by
  intro send sent
  rw [inject_sends] at sent
  rcases VSwitch.pollInterface_cases (config visit.node) visit.enumeration visit.now
      (fun _ => visit.later) ⟨frame, visit.behind⟩ visit.table with
    nothing | ⟨_, one⟩ | ⟨_, copies⟩
  · simp [nothing] at sent
  · simp only [one, List.mem_singleton] at sent
    rw [sent]
  · simp only [copies] at sent
    obtain ⟨entry, _, _, rfl⟩ := mem_sendBroadcast sent
    rfl

theorem carries_step {frame : Bytes} (flight : Flight Node) (event : FlightEvent Node)
    (carries : Carries frame flight) : Carries frame (step config flight event) := by
  cases event with
  | lose index =>
    intro send member
    obtain ⟨copy, left, rfl⟩ := List.mem_map.mp member
    exact carries _ (List.mem_map_of_mem (List.mem_of_mem_eraseIdx left))
  | deliver index visit =>
    rcases deliver_cases config flight index visit with
      same | ⟨copy, rest, picked, _, rfl, _, after⟩
    · rwa [same]
    · rw [after]
      intro send member
      simp only [sends, List.map_append, List.mem_append, List.map_map] at member
      rcases member with left | emitted
      · obtain ⟨other, kept, rfl⟩ := List.mem_map.mp left
        exact carries _ (List.mem_map_of_mem (List.mem_of_mem_eraseIdx kept))
      · obtain ⟨sent, from_reaction, rfl⟩ := List.mem_map.mp emitted
        exact (react_buf from_reaction).trans (carries _ (mem_of_picked picked))

end Flight

end TalusVSwitch
