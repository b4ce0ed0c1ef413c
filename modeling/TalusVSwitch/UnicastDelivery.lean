import TalusVSwitch.Flight

namespace TalusVSwitch

universe u

namespace Flight

variable {Node : Type u} {config : Node → Config} {flight : Flight Node} {frame : Bytes}

theorem react_tap_short (visit : Visit Node) {send : Send} (short : send.buf.length ≤ 12) :
    (react config visit send).tap = [] := by
  have small : ¬ 12 < (Buffer.mk send.buf visit.behind).size := Nat.not_lt.mpr short
  simp [react, VSwitch.onDatagram_tap, VSwitch.writesTap, small]

/-- A reception of a unicast frame writes it, or sends one copy on, or neither. -/
theorem react_unicast (visit : Visit Node) {send : Send} (long : 12 < send.buf.length)
    (unicast : Buffer.dMac ⟨send.buf, []⟩ ≠ MAC_BROADCAST) :
    (react config visit send).sends.length + (react config visit send).tap.length ≤ 1 := by
  have destination : Buffer.dMac ⟨send.buf, visit.behind⟩ ≠ MAC_BROADCAST := by
    rwa [Buffer.dMac_congr (Nat.le_of_lt long)]
  have written : (react config visit send).tap.length ≤ 1 := by
    rw [react, VSwitch.onDatagram_tap]
    split
    · exact Nat.le_refl 1
    · exact Nat.zero_le 1
  rcases VSwitch.onDatagram_cases (config visit.node) visit.enumeration visit.now
      (fun _ => visit.later) ⟨send.buf, visit.behind⟩ visit.pktRecvPeer send.ttl visit.table with
    nothing | ⟨foreign, _, _, ⟨_, peerInfo, _, one⟩ | ⟨broadcast, _⟩⟩
  · rwa [react, nothing, List.length_nil, Nat.zero_add]
  · have unwritten : (react config visit send).tap = [] := by
      simp [react, VSwitch.onDatagram_tap, VSwitch.writesTap, foreign, destination]
    rw [unwritten, react, one]
    exact Nat.le_refl 1
  · exact absurd broadcast destination

/-- The frame is at most at one place. -/
structure AtOnePlace (frame : Bytes) (flight : Flight Node) : Prop where
  carries : Carries frame flight
  places : flight.inflight.length + flight.taps.length ≤ 1

theorem inject_atOnePlace (unicast : Buffer.dMac ⟨frame, []⟩ ≠ MAC_BROADCAST)
    (long : 12 < frame.length) (visit : Visit Node) :
    AtOnePlace frame (inject config frame visit) := by
  refine ⟨inject_carries frame visit, ?_⟩
  have destination : Buffer.dMac ⟨frame, visit.behind⟩ ≠ MAC_BROADCAST := by
    rwa [Buffer.dMac_congr (Nat.le_of_lt long)]
  simp only [inject, List.length_map, List.length_nil, Nat.add_zero]
  rcases VSwitch.pollInterface_cases (config visit.node) visit.enumeration visit.now
      (fun _ => visit.later) ⟨frame, visit.behind⟩ visit.table with
    nothing | ⟨_, one⟩ | ⟨broadcast, _⟩
  · rw [nothing]
    exact Nat.zero_le 1
  · rw [one]
    exact Nat.le_refl 1
  · exact absurd broadcast destination

theorem atOnePlace_step (unicast : Buffer.dMac ⟨frame, []⟩ ≠ MAC_BROADCAST)
    (long : 12 < frame.length) (flight : Flight Node) (event : FlightEvent Node)
    (token : AtOnePlace frame flight) : AtOnePlace frame (step config flight event) := by
  refine ⟨carries_step flight event token.carries, ?_⟩
  have places := token.places
  cases event with
  | lose index =>
    have fewer := List.length_eraseIdx_le flight.inflight index
    simp only [step]
    omega
  | deliver index visit =>
    rcases deliver_cases config flight index visit with
      same | ⟨copy, rest, picked, _, _, split, after⟩
    · rwa [same]
    · have carried := token.carries _ (mem_of_picked picked)
      have moved := @react_unicast _ config visit copy.send (by rwa [carried]) (by rwa [carried])
      have one := split.length_eq
      rw [List.length_cons] at one
      simp only [after, List.length_append, List.length_map]
      omega

theorem unwritten_step (short : frame.length ≤ 12) (flight : Flight Node)
    (event : FlightEvent Node) (unwritten : Carries frame flight ∧ flight.taps = []) :
    Carries frame (step config flight event) ∧ (step config flight event).taps = [] := by
  refine ⟨carries_step flight event unwritten.1, ?_⟩
  cases event with
  | lose index => exact unwritten.2
  | deliver index visit =>
    rcases deliver_cases config flight index visit with
      same | ⟨copy, rest, picked, _, _, _, after⟩
    · rw [same]
      exact unwritten.2
    · have carried := unwritten.1 _ (mem_of_picked picked)
      rw [after, unwritten.2, react_tap_short visit (by rwa [carried])]
      rfl

/-- Over every run, a frame whose destination is not the broadcast MAC is written to
at most one TAP, once, and then no copy of it is in flight. -/
theorem unicast_delivered_once (config : Node → Config) (frame : Bytes)
    (unicast : Buffer.dMac ⟨frame, []⟩ ≠ MAC_BROADCAST) (visit : Visit Node)
    (events : List (FlightEvent Node)) :
    let flight := Execution.run (step config) (inject config frame visit) events
    flight.taps.length ≤ 1 ∧ (flight.taps ≠ [] → flight.inflight = []) := by
  intro flight
  rcases Nat.lt_or_ge 12 frame.length with long | short
  · have token : AtOnePlace frame flight :=
      Execution.run_invariant (atOnePlace_step unicast long) (inject_atOnePlace unicast long visit)
        events
    have places := token.places
    refine ⟨by omega, ?_⟩
    intro written
    have some := List.length_pos_iff.mpr written
    exact List.length_eq_zero_iff.mp (by omega)
  · have unwritten : Carries frame flight ∧ flight.taps = [] :=
      Execution.run_invariant (unwritten_step short) ⟨inject_carries frame visit, rfl⟩ events
    rw [unwritten.2]
    exact ⟨Nat.zero_le 1, fun written => absurd rfl written⟩

/-- A frame sent to its destination's node, which writes it. -/
theorem unicast_delivered_once_direct :
    let config : Bool → Config := fun node => ⟨if node then 0x20000 else 0x30000, 8, .inet 1 9001, []⟩
    let table : MacMap := (∅ : MacMap).addMacPeer 0 0x20000 (.inet 2 9001) 8
    let frame : Bytes := [2, 0, 0, 0, 0, 0, 3, 0, 0, 0, 0, 0, 8, 0]
    let visit (node : Bool) : Visit Bool := { node := node, table := table, later := table }
    let flight := Execution.run (step config) (inject config frame (visit false))
      [.deliver 0 (visit true)]
    flight.taps.length ≤ 1 ∧ (flight.taps ≠ [] → flight.inflight = []) := by
  intro config table frame visit flight
  exact unicast_delivered_once config frame (by decide) (visit false) _

end Flight

end TalusVSwitch
