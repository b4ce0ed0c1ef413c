import TalusVSwitch.Flight

namespace TalusVSwitch

universe u

/-- The number of copies that can still be relayed. -/
def liveCopies (sends : List Send) : Nat := sends.countP (fun send => send.ttl != 0)

/-- The hops all copies together have left. -/
def hops : List Send → Nat
  | [] => 0
  | send :: rest => send.ttl.toNat + hops rest

@[simp] theorem liveCopies_append (first second : List Send) :
    liveCopies (first ++ second) = liveCopies first + liveCopies second :=
  List.countP_append

@[simp] theorem hops_append (first second : List Send) :
    hops (first ++ second) = hops first + hops second := by
  induction first with
  | nil => simp [hops]
  | cons send rest ih => simp [hops, ih, Nat.add_assoc]

@[simp] theorem liveCopies_cons (send : Send) (rest : List Send) :
    liveCopies (send :: rest) = liveCopies rest + if send.ttl = 0 then 0 else 1 := by
  by_cases spent : send.ttl = 0 <;> simp [liveCopies, spent]

@[simp] theorem hops_cons (send : Send) (rest : List Send) :
    hops (send :: rest) = send.ttl.toNat + hops rest := rfl

theorem liveCopies_perm {first second : List Send} (perm : first.Perm second) :
    liveCopies first = liveCopies second :=
  perm.countP_eq _

theorem hops_perm {first second : List Send} (perm : first.Perm second) :
    hops first = hops second := by
  induction perm with
  | nil => rfl
  | cons send _ ih => rw [hops, hops, ih]
  | swap one other rest => simp only [hops, Nat.add_left_comm]
  | trans _ _ ih ih' => exact ih.trans ih'

theorem ttl_le_hops {send : Send} {sends : List Send} (member : send ∈ sends) :
    send.ttl.toNat ≤ hops sends := by
  obtain ⟨before, after, rfl⟩ := List.append_of_mem member
  rw [hops_append, hops_cons]
  omega

theorem hops_of_not_live {sends : List Send} (dead : liveCopies sends = 0) : hops sends = 0 := by
  induction sends with
  | nil => rfl
  | cons send rest ih =>
    rw [liveCopies_cons] at dead
    by_cases spent : send.ttl = 0
    · rw [hops_cons, ih (by omega), spent]
      rfl
    · simp [spent] at dead

/-- What a handler may emit on a budget: at most one live copy, within the budget. -/
structure Fading (budget : Nat) (sends : List Send) : Prop where
  live : liveCopies sends ≤ 1
  hops : hops sends ≤ budget

theorem fading_nil (budget : Nat) : Fading budget [] := ⟨Nat.zero_le _, Nat.zero_le _⟩

theorem fading_one {budget : Nat} {send : Send} (within : send.ttl.toNat ≤ budget) :
    Fading budget [send] := by
  refine ⟨?_, within⟩
  rw [liveCopies_cons]
  split
  · exact Nat.zero_le _
  · exact Nat.le_refl _

/-- The copies of distinct keys: those of the broadcast key are the live ones. -/
private theorem copies_fading (buf : Bytes) (ttl : UInt8) (entries : List MacEntry) :
    liveCopies (entries.map (copyTo buf ttl)) ≤ entries.keys.count MAC_BROADCAST ∧
      hops (entries.map (copyTo buf ttl)) = entries.keys.count MAC_BROADCAST * (ttl - 1).toNat := by
  induction entries with
  | nil => simp [liveCopies, hops]
  | cons entry rest ih =>
    obtain ⟨live, left⟩ := ih
    simp only [List.map_cons, liveCopies_cons, hops_cons, List.keys_cons, left]
    by_cases uplink : entry.1 = MAC_BROADCAST
    · simp only [copyTo, broadcastTtl, uplink, ne_eq, not_true_eq_false, if_false,
        List.count_cons_self, Nat.add_mul, Nat.one_mul]
      refine ⟨?_, Nat.add_comm ..⟩
      split <;> omega
    · rw [List.count_cons_of_ne uplink]
      simp only [copyTo, broadcastTtl, ne_eq, uplink, not_false_eq_true, if_true]
      exact ⟨live, Nat.zero_add _⟩

theorem sendBroadcast_fading (enumeration : Enumeration) (table : MacMap) (frame : Buffer)
    (pktRecvPeer : SockAddr) {ttl : UInt8} (live : ttl ≠ 0) :
    Fading (ttl.toNat - 1) (sendBroadcast (enumeration.order table) frame pktRecvPeer ttl) := by
  rw [sendBroadcast_eq]
  have chosen : (Dedup.select sameAddr [] (others pktRecvPeer (enumeration.order table))).Sublist
      (enumeration.order table) :=
    (Dedup.select_sublist _ _).trans List.filter_sublist
  have keys : (enumeration.order table).NodupKeys :=
    (List.perm_nodupKeys (enumeration.perm table)).mpr table.nodupKeys
  have once := List.nodup_iff_count_le_one.mp (keys.sublist chosen) MAC_BROADCAST
  obtain ⟨few, left⟩ := copies_fading frame.bytes ttl
    (Dedup.select sameAddr [] (others pktRecvPeer (enumeration.order table)))
  refine ⟨Nat.le_trans few once, ?_⟩
  rw [left, toNat_ttl_pred live]
  calc _ ≤ 1 * (ttl.toNat - 1) := Nat.mul_le_mul_right _ once
    _ = ttl.toNat - 1 := Nat.one_mul _

theorem entries_length_pos {table : MacMap} {mac : Mac} {peerInfo : MacPeer}
    (found : table.lookup mac = some peerInfo) : 1 ≤ table.entries.length :=
  List.length_pos_of_mem (AList.mem_lookup_iff.mp found)

theorem sendBroadcast_length_le (enumeration : Enumeration) (table : MacMap) (frame : Buffer)
    (pktRecvPeer : SockAddr) (ttl : UInt8) :
    (sendBroadcast (enumeration.order table) frame pktRecvPeer ttl).length ≤ table.entries.length :=
  Nat.le_trans sendBroadcast_length (Nat.le_of_eq (enumeration.perm table).length_eq)

namespace Flight

variable {Node : Type u} {config : Node → Config} {flight : Flight Node}

/-- What a reception emits: nothing from a spent copy, and less than the TTL
received otherwise, in no more copies than the table has entries. -/
theorem react_fading (config : Node → Config) (visit : Visit Node) (send : Send) :
    (react config visit send).sends = [] ∨
      (send.ttl ≠ 0 ∧ Fading (send.ttl.toNat - 1) (react config visit send).sends ∧
        (react config visit send).sends.length ≤ visit.width) := by
  rcases VSwitch.onDatagram_cases (config visit.node) visit.enumeration visit.now
      (fun _ => visit.later) ⟨send.buf, visit.behind⟩ visit.pktRecvPeer send.ttl visit.table with
    nothing | ⟨_, live, _, ⟨_, peerInfo, found, one⟩ | ⟨_, copies⟩⟩
  · exact .inl nothing
  · refine .inr ⟨live, ?_, ?_⟩
    · rw [react, one]
      exact fading_one (Nat.le_of_eq (toNat_ttl_pred live))
    · rw [react, one]
      exact Nat.le_trans (entries_length_pos found) (Nat.le_max_right _ _)
  · refine .inr ⟨live, ?_, ?_⟩
    · rw [react, copies]
      exact sendBroadcast_fading _ _ _ _ live
    · rw [react, copies]
      exact Nat.le_trans (sendBroadcast_length_le ..) (Nat.le_max_right _ _)

theorem inject_fading (config : Node → Config) (frame : Bytes) (visit : Visit Node)
    (live : (config visit.node).sendTtl ≠ 0) :
    Fading (config visit.node).sendTtl.toNat (inject config frame visit).sends ∧
      (inject config frame visit).sends.length ≤ visit.width := by
  rw [inject_sends]
  rcases VSwitch.pollInterface_cases (config visit.node) visit.enumeration visit.now
      (fun _ => visit.later) ⟨frame, visit.behind⟩ visit.table with
    nothing | ⟨port, one⟩ | ⟨_, copies⟩
  · rw [nothing]
    exact ⟨fading_nil _, Nat.zero_le _⟩
  · rw [one]
    refine ⟨fading_one (Nat.le_refl _), ?_⟩
    obtain ⟨mac, peerInfo, found⟩ := MacMap.exists_of_getMacPeer_port port
    exact Nat.le_trans (entries_length_pos found) (Nat.le_max_left _ _)
  · rw [copies]
    have fading := sendBroadcast_fading visit.enumeration visit.later ⟨frame, visit.behind⟩ .unspec
      live
    exact ⟨⟨fading.live, Nat.le_trans fading.hops (Nat.sub_le _ _)⟩,
      Nat.le_trans (sendBroadcast_length_le ..) (Nat.le_max_right _ _)⟩

/-- Why flooding stays linear: one live copy at most, and every hop its TTL has lost
has paid for one fan-out. -/
structure Linear (budget : Nat) (flight : Flight Node) : Prop where
  fading : Fading budget flight.sends
  sent : flight.sent ≤ flight.widest * (budget + 1 - hops flight.sends)
  relayed : ∀ received emitted, (received, emitted) ∈ flight.relayed →
    received ≠ 0 ∧ emitted.toNat ≤ received.toNat - 1

theorem inject_linear (config : Node → Config) (frame : Bytes) (visit : Visit Node)
    (live : (config visit.node).sendTtl ≠ 0) :
    Linear (config visit.node).sendTtl.toNat (inject config frame visit) := by
  obtain ⟨fading, few⟩ := inject_fading config frame visit live
  refine ⟨fading, ?_, fun _ _ none => by cases none⟩
  have left := fading.hops
  have counted : (inject config frame visit).sent = (inject config frame visit).sends.length := by
    simp [sends, inject]
  by_cases silent : (inject config frame visit).sends = []
  · rw [counted, silent]
    exact Nat.zero_le _
  · have wide : (inject config frame visit).widest = visit.width := by
      simp only [sends, inject, List.map_eq_nil_iff] at silent
      simp [inject, silent]
    rw [counted, wide]
    calc (inject config frame visit).sends.length
        ≤ visit.width * 1 := by rwa [Nat.mul_one]
      _ ≤ _ := Nat.mul_le_mul_left _ (by omega)

theorem sends_split {copy : Copy Node} {rest : List (Copy Node)}
    (split : flight.inflight.Perm (copy :: rest)) :
    liveCopies flight.sends = liveCopies (rest.map Copy.send) + (if copy.send.ttl = 0 then 0 else 1) ∧
      hops flight.sends = copy.send.ttl.toNat + hops (rest.map Copy.send) := by
  have perm : flight.sends.Perm (copy.send :: rest.map Copy.send) := split.map Copy.send
  exact ⟨(liveCopies_perm perm).trans (liveCopies_cons _ _),
    (hops_perm perm).trans (hops_cons _ _)⟩

/-- A delivery of a live copy replaces it by what the receiver emits. -/
theorem deliver_linear {budget index : Nat} (visit : Visit Node) (linear : Linear budget flight) :
    Linear budget (step config flight (.deliver index visit)) := by
  rcases deliver_cases config flight index visit with
    same | ⟨copy, rest, _, _, _, split, after⟩
  · rwa [same]
  have fading := linear.fading
  have oneLive := fading.live
  have within := fading.hops
  have paid := linear.sent
  obtain ⟨liveSplit, hopsSplit⟩ := sends_split split
  have afterSends : (step config flight (.deliver index visit)).sends =
      rest.map Copy.send ++ (react config visit copy.send).sends := by
    rw [after, sends, List.map_append, send_of_copies]
  rcases react_fading config visit copy.send with nothing | ⟨live, emitted, few⟩
  · have kept : (step config flight (.deliver index visit)).sends = rest.map Copy.send := by
      rw [afterSends, nothing, List.append_nil]
    refine ⟨⟨?_, ?_⟩, ?_, ?_⟩
    · rw [kept]
      omega
    · rw [kept]
      omega
    · rw [kept, after, nothing]
      exact Nat.le_trans paid (Nat.mul_le_mul_left _ (by omega))
    · rw [after, nothing]
      simpa using linear.relayed
  · simp only [live, if_false] at liveSplit
    -- the copy delivered was the live one, so nothing left behind is
    have spent := @hops_of_not_live (rest.map Copy.send) (by omega)
    have budgeted := emitted.hops
    have oneEmitted := emitted.live
    have positive : 0 < copy.send.ttl.toNat :=
      Nat.pos_of_ne_zero (fun zero => live (UInt8.toNat_inj.mp zero))
    refine ⟨⟨?_, ?_⟩, ?_, ?_⟩
    · rw [afterSends, liveCopies_append]
      omega
    · rw [afterSends, hops_append]
      omega
    · rw [afterSends, hops_append, spent, Nat.zero_add, after]
      by_cases silent : (react config visit copy.send).sends = []
      · simp only [silent, List.length_nil, List.isEmpty_nil, if_true, Nat.add_zero]
        exact Nat.le_trans paid (Nat.mul_le_mul_left _ (by
          have none : hops [] = 0 := rfl
          omega))
      · simp only [List.isEmpty_iff, silent, if_false]
        generalize widest : max flight.widest visit.width = wide
        have older : flight.widest ≤ wide := by omega
        have seen : visit.width ≤ wide := by omega
        calc flight.sent + (react config visit copy.send).sends.length
            ≤ flight.widest * (budget + 1 - hops flight.sends) + visit.width :=
              Nat.add_le_add paid few
          _ ≤ wide * (budget + 1 - hops flight.sends) + wide :=
              Nat.add_le_add (Nat.mul_le_mul_right _ older) seen
          _ = wide * (budget + 1 - hops flight.sends + 1) := (Nat.mul_succ _ _).symm
          _ ≤ _ := Nat.mul_le_mul_left _ (by omega)
    · rw [after]
      intro received ttl member
      rcases List.mem_append.mp member with before | new
      · exact linear.relayed _ _ before
      · obtain ⟨send, sent, same⟩ := List.mem_map.mp new
        cases same
        exact ⟨live, Nat.le_trans (ttl_le_hops sent) budgeted⟩

theorem lose_linear {budget : Nat} (index : Nat) (linear : Linear budget flight) :
    Linear budget (step config flight (.lose index)) := by
  rcases lose_cases config flight index with same | ⟨copy, rest, _, split, after⟩
  · rwa [same]
  · obtain ⟨liveSplit, hopsSplit⟩ := sends_split split
    have fading := linear.fading
    have oneLive := fading.live
    have within := fading.hops
    rw [after]
    refine ⟨⟨?_, ?_⟩, Nat.le_trans linear.sent (Nat.mul_le_mul_left _ ?_), linear.relayed⟩
    · simp only [sends] at *
      omega
    · simp only [sends] at *
      omega
    · simp only [sends] at *
      omega

theorem linear_step {budget : Nat} (flight : Flight Node) (event : FlightEvent Node)
    (linear : Linear budget flight) : Linear budget (step config flight event) := by
  cases event with
  | deliver index visit => exact deliver_linear visit linear
  | lose index => exact lose_linear index linear

/-- Over every run of one frame, through whatever tables: at most one copy in flight
can still be relayed, a copy emitted on a reception has a smaller TTL than the live
copy received, and the copies ever sent are at most `N * (T + 1)`. -/
theorem flood_linear (config : Node → Config) (frame : Bytes) (visit : Visit Node)
    (live : 1 ≤ (config visit.node).sendTtl) (events : List (FlightEvent Node)) :
    let flight := Execution.run (step config) (inject config frame visit) events
    liveCopies flight.sends ≤ 1 ∧
    (∀ received emitted, (received, emitted) ∈ flight.relayed →
      0 < received ∧ emitted ≤ received - 1) ∧
    flight.sent ≤ flight.widest * ((config visit.node).sendTtl.toNat + 1) := by
  intro flight
  have budget := ttl_ne_zero live
  have linear : Linear (config visit.node).sendTtl.toNat flight :=
    Execution.run_invariant linear_step (inject_linear config frame visit budget) events
  have fading := linear.fading
  refine ⟨fading.live, ?_, ?_⟩
  · intro received emitted member
    obtain ⟨positive, smaller⟩ := linear.relayed received emitted member
    refine ⟨UInt8.lt_of_lt_of_le (by decide) (one_le_ttl positive), ?_⟩
    rw [UInt8.le_iff_toNat_le, toNat_ttl_pred positive]
    exact smaller
  · exact Nat.le_trans linear.sent (Nat.mul_le_mul_left _ (Nat.sub_le _ _))

/-- Two nodes that are each other's uplink, and a broadcast that goes round. -/
theorem flood_linear_cycle :
    let config : Bool → Config := fun node => ⟨if node then 0x20000 else 0x30000, 8, .inet 1 9001, []⟩
    let table : MacMap := (∅ : MacMap).addMacPeer 0 MAC_BROADCAST (.inet 1 9001) 8
    let frame : Bytes := [255, 255, 255, 255, 255, 255, 2, 0, 0, 0, 0, 0, 8, 0]
    let visit (node : Bool) : Visit Bool := { node := node, table := table, later := table }
    let flight := Execution.run (step config) (inject config frame (visit true))
      [.deliver 0 (visit false), .deliver 0 (visit true), .lose 0]
    flight.sent ≤ flight.widest * 9 := by
  intro config table frame visit flight
  exact (flood_linear config frame (visit true) (by decide) _).2.2

end Flight

end TalusVSwitch
