import TalusVSwitch.Library.Walk
import TalusVSwitch.Flight

namespace TalusVSwitch

universe u

/-- Nodes, the addresses each is reached at, and the address each one's table has for one
destination. -/
structure Routes (Node : Type u) where
  config : Node → Config
  host : SockAddr → Option Node
  port : ∀ addr, (host addr).isSome → addr.inet_port ≠ 0
  next : Node → Option SockAddr

namespace Routes

variable {Node : Type u} (routes : Routes Node) (mac : Mac)

def hop (node : Node) : Option Node := (routes.next node).bind routes.host

def Owner (node : Node) : Prop := (routes.config node).macLocal = mac

instance : DecidablePred (routes.Owner mac) :=
  fun node => inferInstanceAs (Decidable ((routes.config node).macLocal = mac))

/-- The table a handler forwards by. -/
def Finds (visit : Visit Node) : Prop :=
  (visit.later.lookup mac).map MacPeer.sock = routes.next visit.node

instance (visit : Visit Node) : Decidable (routes.Finds mac visit) :=
  inferInstanceAs (Decidable ((visit.later.lookup mac).map MacPeer.sock = routes.next visit.node))

/-- The network takes each copy to the node it is addressed to, and loses only what is
addressed to none. -/
def Delivers (flight : Flight Node) : FlightEvent Node → Prop
  | .deliver index visit => ∀ copy, flight.inflight[index]? = some copy →
      copy.send.addr.inet_port ≠ 0 →
        routes.host copy.send.addr = some visit.node ∧ routes.Finds mac visit
  | .lose index => ∀ copy, flight.inflight[index]? = some copy → routes.host copy.send.addr = none

/-- A data frame for the destination, from somebody else. -/
structure UnicastFrame (frame : Bytes) : Prop where
  long : 12 < frame.length
  data : Buffer.isTvsCmd ⟨frame, []⟩ = false
  destination : Buffer.dMac ⟨frame, []⟩ = mac
  addressed : mac ≠ 0
  unicast : mac ≠ MAC_BROADCAST
  foreign : Buffer.sMac ⟨frame, []⟩ ≠ mac

/-- Where a datagram is written that is sent to this address with this TTL. -/
def arrives (send : Send) : Option Node :=
  (routes.host send.addr).bind (Walk.reach routes.hop (routes.Owner mac) send.ttl.toNat)

variable {routes mac} {frame : Bytes} {visit : Visit Node} {send : Send}

theorem UnicastFrame.dMac (unicast : UnicastFrame mac frame) (behind : Bytes) :
    Buffer.dMac ⟨frame, behind⟩ = mac :=
  (Buffer.dMac_congr (Nat.le_of_lt unicast.long)).trans unicast.destination

theorem react_owner (unicast : UnicastFrame mac frame) (carried : send.buf = frame)
    (owner : routes.Owner mac visit.node) :
    (Flight.react routes.config visit send).tap = [frame] ∧
      (Flight.react routes.config visit send).sends = [] := by
  have header := Nat.le_of_lt unicast.long
  have destination := unicast.dMac visit.behind
  have source : Buffer.sMac ⟨frame, visit.behind⟩ ≠ mac := by
    rw [Buffer.sMac_congr header]
    exact unicast.foreign
  have data : Buffer.isTvsCmd ⟨frame, visit.behind⟩ = false := by
    rw [Buffer.isTvsCmd_congr header]
    exact unicast.data
  have long : 12 < (Buffer.mk frame visit.behind).size := unicast.long
  subst carried
  constructor
  · rw [Flight.react, VSwitch.onDatagram_tap, if_pos]
    refine ⟨by rw [destination]; exact unicast.addressed, ?_⟩
    simp only [VSwitch.writesTap, data, destination, Bool.not_false, Bool.true_and, Bool.and_eq_true,
      Bool.or_eq_true, beq_iff_eq, bne_iff_ne, decide_eq_true_eq]
    refine ⟨⟨.inl owner.symm, ?_⟩, long⟩
    rw [owner]
    exact source
  · rcases VSwitch.onDatagram_cases (routes.config visit.node) visit.enumeration visit.now
      (fun _ => visit.later) ⟨send.buf, visit.behind⟩ visit.pktRecvPeer send.ttl visit.table with
      nothing | ⟨away, _⟩
    · exact nothing
    · rw [destination] at away
      exact absurd owner.symm away

/-- Any other node sends it on by its table, with a hop less. -/
theorem react_relay (unicast : UnicastFrame mac frame) (carried : send.buf = frame)
    (further : ¬ routes.Owner mac visit.node) :
    (Flight.react routes.config visit send).tap = [] ∧
      (Flight.react routes.config visit send).sends =
        if send.ttl = 0 then []
        else ((visit.later.lookup mac).map
          (fun peerInfo => Send.mk frame peerInfo.sock (send.ttl - 1))).toList := by
  have destination := unicast.dMac visit.behind
  have away : Buffer.dMac ⟨frame, visit.behind⟩ ≠ (routes.config visit.node).macLocal := by
    rw [destination]
    exact Ne.symm further
  have long : 12 < (Buffer.mk frame visit.behind).size := unicast.long
  subst carried
  constructor
  · rw [Flight.react, VSwitch.onDatagram_tap, if_neg]
    rintro ⟨_, writes⟩
    simp only [VSwitch.writesTap, Bool.and_eq_true, Bool.or_eq_true, beq_iff_eq] at writes
    rcases writes.2.1.1 with own | broadcast
    · exact away own
    · exact unicast.unicast (destination.symm.trans broadcast)
  · have called : (Transport.classify ⟨send.buf, visit.behind⟩ send.ttl).callback =
        some ⟨⟨send.buf, visit.behind⟩, send.ttl, Buffer.isTvsCmd ⟨send.buf, visit.behind⟩⟩ := by
      have addressed : Buffer.dMac ⟨send.buf, visit.behind⟩ ≠ 0 := by
        rw [destination]
        exact unicast.addressed
      simp only [Transport.classify, addressed, if_false]
    simp only [Flight.react, VSwitch.onDatagram, called, VSwitch.onPeerInput]
    by_cases spent : send.ttl = 0
    · simp [VSwitch.forward, away, spent]
    · rw [if_neg spent]
      cases found : visit.later.lookup mac with
      | some peerInfo =>
        rw [← destination] at found
        have forwarded := @VSwitch.forward_unicast (routes.config visit.node) visit.enumeration
          visit.now ⟨⟨send.buf, visit.behind⟩, send.ttl, Buffer.isTvsCmd ⟨send.buf, visit.behind⟩⟩
          visit.pktRecvPeer visit.later away spent long (by rw [destination]; exact unicast.unicast)
          peerInfo found
        rw [forwarded]
        rfl
      | none =>
        rcases VSwitch.forward_cases (routes.config visit.node) visit.enumeration visit.now
          ⟨⟨send.buf, visit.behind⟩, send.ttl, Buffer.isTvsCmd ⟨send.buf, visit.behind⟩⟩
          visit.pktRecvPeer visit.later with
          nothing | ⟨_, _, _, ⟨_, peerInfo, stored, _⟩ | ⟨broadcast, _⟩⟩
        · exact nothing
        · rw [destination, found] at stored
          cases stored
        · exact absurd (destination.symm.trans broadcast) unicast.unicast

/-- The frame is on its way to where it is to be written, or has got there. -/
inductive OnItsWay (routes : Routes Node) (mac : Mac) (frame : Bytes) (goal : Option Node)
    (flight : Flight Node) : Prop where
  | flying (copy : Copy Node) (alone : flight.inflight = [copy]) (carried : copy.send.buf = frame)
      (unwritten : flight.taps = []) (ahead : routes.arrives mac copy.send = goal)
  | landed (gone : flight.inflight = [])
      (written : flight.taps = goal.toList.map (fun node => (node, frame)))

/-- A copy that reaches a node has, from there on, the same goal. -/
theorem arrives_at (reached : routes.host send.addr = some visit.node) :
    routes.arrives mac send =
      Walk.reach routes.hop (routes.Owner mac) send.ttl.toNat visit.node := by
  rw [arrives, reached, Option.bind_some]

theorem onItsWay_deliver {goal : Option Node} {after : Flight Node} {copy : Copy Node}
    (unicast : UnicastFrame mac frame) (carried : copy.send.buf = frame)
    (ahead : routes.arrives mac copy.send = goal)
    (reached : routes.host copy.send.addr = some visit.node) (finds : routes.Finds mac visit)
    (left : after.inflight = (Flight.react routes.config visit copy.send).sends.map
      (Copy.mk visit.node))
    (written : after.taps = (Flight.react routes.config visit copy.send).tap.map
      (Prod.mk visit.node)) :
    OnItsWay routes mac frame goal after := by
  rw [arrives_at reached] at ahead
  by_cases owner : routes.Owner mac visit.node
  · obtain ⟨tap, quiet⟩ := react_owner unicast carried owner
    rw [Walk.reach_of_stop owner] at ahead
    refine .landed (by rw [left, quiet]; rfl) ?_
    rw [written, tap, ← ahead]
    rfl
  · obtain ⟨tap, sends⟩ := react_relay unicast carried owner
    rw [sends] at left
    rw [tap] at written
    by_cases spent : copy.send.ttl = 0
    · rw [spent, UInt8.toNat_zero, Walk.reach_zero owner] at ahead
      refine .landed (by rw [left, if_pos spent]; rfl) ?_
      rw [written, ← ahead]
      rfl
    · rw [if_neg spent] at left
      have budget : copy.send.ttl.toNat = (copy.send.ttl - 1).toNat + 1 := by
        have live := UInt8.le_iff_toNat_le.mp (one_le_ttl spent)
        rw [toNat_ttl_pred spent]
        change 1 ≤ copy.send.ttl.toNat at live
        omega
      rw [budget, Walk.reach_succ owner, hop, ← finds] at ahead
      cases found : visit.later.lookup mac with
      | none =>
        rw [found] at left ahead
        refine .landed (by rw [left]; rfl) ?_
        rw [written, ← ahead]
        rfl
      | some peerInfo =>
        rw [found] at left ahead
        exact .flying ⟨visit.node, frame, peerInfo.sock, copy.send.ttl - 1⟩ left rfl written ahead

theorem onItsWay_step {goal : Option Node} (unicast : UnicastFrame mac frame) (flight : Flight Node)
    (event : FlightEvent Node) (delivers : routes.Delivers mac flight event)
    (way : OnItsWay routes mac frame goal flight) :
    OnItsWay routes mac frame goal (Flight.step routes.config flight event) := by
  cases event with
  | lose index =>
    cases way with
    | landed gone written => exact .landed (by simp [Flight.step, gone]) written
    | flying copy alone carried unwritten ahead =>
      cases index with
      | succ index =>
        exact .flying copy (by simp [Flight.step, alone]) carried unwritten ahead
      | zero =>
        have nowhere := delivers copy (by rw [alone]; rfl)
        rw [arrives, nowhere] at ahead
        refine .landed (by simp [Flight.step, alone]) ?_
        rw [← ahead]
        exact unwritten
  | deliver index visit =>
    rcases Flight.deliver_cases routes.config flight index visit with
      same | ⟨copy, rest, picked, port, erased, split, after⟩
    · rwa [same]
    · cases way with
      | landed gone written =>
        rw [gone] at picked
        cases picked
      | flying other alone carried unwritten ahead =>
        rw [alone] at split
        have single := List.singleton_perm.mp split
        obtain ⟨rfl, rfl⟩ := List.cons.inj single
        obtain ⟨reached, finds⟩ := delivers other picked port
        have left := congrArg Flight.inflight after
        have written := congrArg Flight.taps after
        simp only [List.nil_append, unwritten] at left written
        exact onItsWay_deliver unicast carried ahead reached finds left written

theorem onItsWay_inject (unicast : UnicastFrame mac frame) (visit : Visit Node) :
    OnItsWay routes mac frame
      (routes.arrives mac ⟨frame, (visit.table.getMacPeer visit.now mac).1,
        (routes.config visit.node).sendTtl⟩)
      (Flight.inject routes.config frame visit) := by
  have destination := unicast.dMac visit.behind
  have nonempty : (Buffer.mk frame visit.behind).size ≠ 0 := by
    have long := unicast.long
    change frame.length ≠ 0
    omega
  by_cases port : (visit.table.getMacPeer visit.now mac).1.inet_port = 0
  · have nowhere : routes.host (visit.table.getMacPeer visit.now mac).1 = none := by
      by_contra hosted
      exact routes.port _ (Option.isSome_iff_ne_none.mpr hosted) port
    rw [arrives, nowhere]
    rcases VSwitch.pollInterface_cases (routes.config visit.node) visit.enumeration visit.now
      (fun _ => visit.later) ⟨frame, visit.behind⟩ visit.table with
      nothing | ⟨reachable, _⟩ | ⟨broadcast, _⟩
    · exact .landed (by rw [Flight.inject, nothing]; rfl) rfl
    · rw [destination] at reachable
      exact absurd port reachable
    · exact absurd (destination.symm.trans broadcast) unicast.unicast
  · rw [← destination] at port
    have one := @VSwitch.pollInterface_of_port (routes.config visit.node) visit.enumeration visit.now
      (fun _ => visit.later) visit.table ⟨frame, visit.behind⟩ nonempty port
    rw [destination] at one
    exact .flying ⟨visit.node, _⟩ (by rw [Flight.inject, one]; rfl) rfl rfl rfl

/-- Settled tables deliver exactly what their next hops reach. A unicast data frame injected
anywhere, relayed by nodes whose entries for its destination stay as they are, over a network
that loses nothing on its way to a node, is written, when no copy is left in flight, once, by
the first node with its MAC that the next hops reach from the address the injector's lookup
yields, within as many of them as the sender's TTL; and nowhere, loops included, if there is
none. -/
theorem routed (routes : Routes Node) (mac : Mac) {frame : Bytes} (unicast : UnicastFrame mac frame)
    (visit : Visit Node) (events : List (FlightEvent Node))
    (delivers : Execution.EveryStep (Flight.step routes.config) (routes.Delivers mac)
      (Flight.inject routes.config frame visit) events) :
    let flight := Execution.run (Flight.step routes.config)
      (Flight.inject routes.config frame visit) events
    flight.inflight = [] →
      (flight.taps = [] ∨ ∃ owner, flight.taps = [(owner, frame)]) ∧
      ∀ owner, (owner, frame) ∈ flight.taps ↔
        routes.Owner mac owner ∧ ∃ first count,
          routes.host (visit.table.getMacPeer visit.now mac).1 = some first ∧
          count ≤ (routes.config visit.node).sendTtl.toNat ∧
          Walk.hops routes.hop count first = some owner ∧
          ∀ fewer < count, ∀ other, Walk.hops routes.hop fewer first = some other →
            ¬ routes.Owner mac other := by
  intro flight settled
  have way := Execution.EveryStep.preserves (onItsWay_step unicast) (onItsWay_inject unicast visit)
    delivers
  cases way with
  | flying copy alone => cases settled.symm.trans alone
  | landed gone written =>
    change flight.taps = _ at written
    rw [written]
    constructor
    · cases routes.arrives mac ⟨frame, (visit.table.getMacPeer visit.now mac).1,
        (routes.config visit.node).sendTtl⟩ with
      | none => exact .inl rfl
      | some owner => exact .inr ⟨owner, rfl⟩
    · intro owner
      have reaches (first : Node) :=
        @Walk.reach_eq_some_iff _ routes.hop (routes.Owner mac) _
          (routes.config visit.node).sendTtl.toNat first owner
      have there : (owner, frame) ∈ (routes.arrives mac ⟨frame,
          (visit.table.getMacPeer visit.now mac).1,
          (routes.config visit.node).sendTtl⟩).toList.map (fun node => (node, frame)) ↔
          routes.arrives mac ⟨frame, (visit.table.getMacPeer visit.now mac).1,
            (routes.config visit.node).sendTtl⟩ = some owner := by
        simp
      rw [there, arrives, Option.bind_eq_some_iff]
      constructor
      · rintro ⟨first, hosted, reached⟩
        obtain ⟨own, count, few, led, fresh⟩ := (reaches first).mp reached
        exact ⟨own, first, count, hosted, few, led, fresh⟩
      · rintro ⟨own, first, count, hosted, few, led, fresh⟩
        exact ⟨first, hosted, (reaches first).mpr ⟨own, count, few, led, fresh⟩⟩

/-- Two nodes behind a core, which alone knows where they are: all are reached at their IPv4
address, in either form. -/
def viaCore : Routes (Fin 3) where
  config node := ⟨[0x20000, 0x30000, 0x40000].getD node.val 0, 8, .inet 2 9001, []⟩
  host addr :=
    if addr.endpoint = some ⟨.v4 1, 9001⟩ then some 0
    else if addr.endpoint = some ⟨.v4 2, 9001⟩ then some 1
    else if addr.endpoint = some ⟨.v4 3, 9001⟩ then some 2
    else none
  port := by
    intro addr hosted noPort
    cases addr <;> simp_all [SockAddr.endpoint, SockAddr.inet_port]
  next node := if node = 1 then some (.inet6 (.ofV4 3) 9001) else none

/-- A frame from one of them to the other. -/
theorem routed_via_core :
    let frame : Bytes := [4, 0, 0, 0, 0, 0, 2, 0, 0, 0, 0, 0, 8, 0]
    let table : MacMap := (∅ : MacMap).addMacPeer 0 MAC_BROADCAST (.inet 2 9001) 8
    let known : MacMap := table.addMacPeer 0 0x40000 (.inet6 (.ofV4 3) 9001) 8
    (2, frame) ∈ (Execution.run (Flight.step viaCore.config)
      (Flight.inject viaCore.config frame { node := 0, table := table, later := table })
      [.deliver 0 { node := 1, table := known, later := known },
        .deliver 0 { node := 2, table := table, later := table }]).taps := by
  intro frame table known
  have unicast : UnicastFrame 0x40000 frame :=
    ⟨by decide, by decide, by decide, by decide, by decide, by decide⟩
  let injected := Flight.inject viaCore.config frame { node := 0, table := table, later := table }
  let relayed := Flight.step viaCore.config injected
    (.deliver 0 { node := 1, table := known, later := known })
  have first : injected.inflight[0]?.map (fun copy => copy.send.addr) = some (.inet 2 9001) := by
    decide +kernel
  have second : relayed.inflight[0]?.map (fun copy => copy.send.addr) =
      some (.inet6 (.ofV4 3) 9001) := by
    decide +kernel
  have delivers : Execution.EveryStep (Flight.step viaCore.config) (viaCore.Delivers 0x40000) injected
      [.deliver 0 { node := 1, table := known, later := known },
        .deliver 0 { node := 2, table := table, later := table }] := by
    refine ⟨fun copy picked _ => ⟨?_, by decide +kernel⟩, fun copy picked _ => ⟨?_, by decide +kernel⟩,
      trivial⟩
    · rw [picked, Option.map_some, Option.some.injEq] at first
      rw [first]
      decide
    · change relayed.inflight[0]? = some copy at picked
      rw [picked, Option.map_some, Option.some.injEq] at second
      rw [second]
      decide
  have settled : (Flight.step viaCore.config relayed
      (.deliver 0 { node := 2, table := table, later := table })).inflight.isEmpty = true := by
    decide +kernel
  have delivered := routed viaCore 0x40000 unicast { node := 0, table := table, later := table } _
    delivers
  rw [Execution.run_cons, Execution.run_cons, Execution.run_nil] at delivered
  have reached := (delivered (List.isEmpty_iff.mp settled)).2 2
  rw [Execution.run_cons, Execution.run_cons, Execution.run_nil]
  refine reached.mpr ⟨by decide, 1, 1, by decide +kernel, by decide, by decide, ?_⟩
  intro fewer less other led
  obtain rfl := Nat.lt_one_iff.mp less
  cases led
  decide

end Routes

end TalusVSwitch
