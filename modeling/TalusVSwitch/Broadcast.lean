import TalusVSwitch.Library.Dedup
import TalusVSwitch.MacMap

namespace TalusVSwitch

/-- The arguments of one `Transport::send`. -/
structure Send where
  buf : Bytes
  addr : SockAddr
  ttl : UInt8
deriving DecidableEq, Repr

/-- The TTL a copy to an entry's address carries: only the uplink entry passes the
hop budget on. -/
def broadcastTtl (mac : Mac) (ttl : UInt8) : UInt8 :=
  if mac ≠ MAC_BROADCAST then 0 else ttl - 1

theorem one_le_ttl {ttl : UInt8} (live : ttl ≠ 0) : 1 ≤ ttl := by
  rw [UInt8.le_iff_toNat_le]
  exact Nat.one_le_iff_ne_zero.mpr (fun zero => live (UInt8.toNat_inj.mp zero))

theorem ttl_ne_zero {ttl : UInt8} (live : 1 ≤ ttl) : ttl ≠ 0 := by
  rintro rfl
  exact absurd live (by decide)

theorem toNat_ttl_pred {ttl : UInt8} (live : ttl ≠ 0) : (ttl - 1).toNat = ttl.toNat - 1 :=
  UInt8.toNat_sub_of_le _ _ (one_le_ttl live)

theorem ttl_pred_lt {ttl : UInt8} (live : ttl ≠ 0) : ttl - 1 < ttl := by
  rw [UInt8.lt_iff_toNat_lt, toNat_ttl_pred live]
  exact Nat.sub_lt (UInt8.le_iff_toNat_le.mp (one_le_ttl live)) Nat.one_pos

theorem broadcastTtl_lt {mac : Mac} {ttl : UInt8} (live : ttl ≠ 0) : broadcastTtl mac ttl < ttl := by
  unfold broadcastTtl
  split
  · exact UInt8.lt_of_lt_of_le (by decide) (one_le_ttl live)
  · exact ttl_pred_lt live

/-- The tasks `MacMap::forEach` posts for `sendBroadcast`, run in their order, with
the addresses already sent to. -/
def fanOut (buf : Bytes) (pktRecvPeer : SockAddr) (ttl : UInt8) (sendPeers : List SockAddr) :
    List MacEntry → List Send
  | [] => []
  | ⟨mac, peerInfo⟩ :: rest =>
    if sendPeers.any (compareSockAddr peerInfo.sock) then
      fanOut buf pktRecvPeer ttl sendPeers rest
    else if compareSockAddr pktRecvPeer peerInfo.sock then
      fanOut buf pktRecvPeer ttl sendPeers rest
    else
      ⟨buf, peerInfo.sock, broadcastTtl mac ttl⟩ ::
        fanOut buf pktRecvPeer ttl (sendPeers ++ [peerInfo.sock]) rest

/-- `sendBroadcast`, for the order in which the table is enumerated. -/
def sendBroadcast (order : List MacEntry) (buf : Buffer) (pktRecvPeer : SockAddr) (ttl : UInt8) :
    List Send :=
  fanOut buf.bytes pktRecvPeer ttl [] order

/-- Entries whose addresses the deduplication identifies. -/
def sameAddr (one other : MacEntry) : Bool := compareSockAddr one.2.sock other.2.sock

/-- The entries that are not at the address the frame came from. -/
def others (pktRecvPeer : SockAddr) (order : List MacEntry) : List MacEntry :=
  order.filter (fun entry => !compareSockAddr pktRecvPeer entry.2.sock)

/-- The copy an entry yields. -/
def copyTo (buf : Bytes) (ttl : UInt8) (entry : MacEntry) : Send :=
  ⟨buf, entry.2.sock, broadcastTtl entry.1 ttl⟩

variable {buf : Bytes} {frame : Buffer} {pktRecvPeer : SockAddr} {ttl : UInt8} {order : List MacEntry}

theorem mem_others {entry : MacEntry} :
    entry ∈ others pktRecvPeer order ↔
      entry ∈ order ∧ compareSockAddr pktRecvPeer entry.2.sock = false := by
  simp [others]

/-- The fan-out is the greedy deduplication of the entries away from the source. -/
theorem fanOut_eq_select (kept : List MacEntry) (order : List MacEntry) :
    fanOut buf pktRecvPeer ttl (kept.map (fun entry => entry.2.sock)) order =
      (Dedup.select sameAddr kept (others pktRecvPeer order)).map (copyTo buf ttl) := by
  induction order generalizing kept with
  | nil => rfl
  | cons entry rest ih =>
    have seen : (kept.map (fun entry => entry.2.sock)).any (compareSockAddr entry.2.sock) =
        kept.any (sameAddr entry) := by
      rw [List.any_map]
      rfl
    have next := ih (kept ++ [entry])
    simp only [List.map_append, List.map_cons, List.map_nil] at next
    simp only [fanOut, seen, others, List.filter_cons]
    cases source : compareSockAddr pktRecvPeer entry.2.sock with
    | true =>
      simp only [if_true, ite_self, Bool.not_true, Bool.false_eq_true, if_false]
      exact ih kept
    | false =>
      simp only [Bool.false_eq_true, if_false, Bool.not_false, if_true, Dedup.select]
      split
      · exact ih kept
      · rw [next]
        rfl

theorem sendBroadcast_eq :
    sendBroadcast order frame pktRecvPeer ttl =
      (Dedup.select sameAddr [] (others pktRecvPeer order)).map (copyTo frame.bytes ttl) :=
  fanOut_eq_select [] order

theorem mem_sendBroadcast {send : Send} (sent : send ∈ sendBroadcast order frame pktRecvPeer ttl) :
    ∃ entry ∈ order, compareSockAddr pktRecvPeer entry.2.sock = false ∧
      send = copyTo frame.bytes ttl entry := by
  rw [sendBroadcast_eq] at sent
  obtain ⟨entry, chosen, rfl⟩ := List.mem_map.mp sent
  obtain ⟨member, away⟩ := mem_others.mp (Dedup.select_subset chosen)
  exact ⟨entry, member, away, rfl⟩

/-- Every entry away from the source gets a copy, at its own address or at one taken for
it. -/
theorem sendBroadcast_covers {entry : MacEntry} (member : entry ∈ order)
    (away : compareSockAddr pktRecvPeer entry.2.sock = false) :
    ∃ send ∈ sendBroadcast order frame pktRecvPeer ttl,
      send.addr = entry.2.sock ∨ compareSockAddr entry.2.sock send.addr = true := by
  rw [sendBroadcast_eq]
  rcases @Dedup.select_covers _ sameAddr _ [] _ (mem_others.mpr ⟨member, away⟩) with
    chosen | ⟨other, chosen, clash⟩
  · exact ⟨_, List.mem_map_of_mem chosen, .inl rfl⟩
  · rw [List.nil_append] at chosen
    exact ⟨_, List.mem_map_of_mem chosen, .inr clash⟩

theorem sendBroadcast_length : (sendBroadcast order frame pktRecvPeer ttl).length ≤ order.length := by
  rw [sendBroadcast_eq, List.length_map]
  exact Nat.le_trans (Dedup.select_sublist _ _).length_le (List.length_filter_le ..)

theorem sendBroadcast_count_source {addresses : List SockAddr}
    (source : ∀ addr ∈ addresses, compareSockAddr pktRecvPeer addr = true) :
    (sendBroadcast order frame pktRecvPeer ttl).countP (fun send => send.addr ∈ addresses) = 0 := by
  apply List.countP_eq_zero.mpr
  intro send sent named
  obtain ⟨entry, _, away, rfl⟩ := mem_sendBroadcast sent
  have equal := source _ (of_decide_eq_true named)
  exact Bool.eq_false_iff.mp away equal

/-- The forms of any other address in the table, that no other address is taken for, get one
copy among them. -/
theorem sendBroadcast_count_other {addresses : List SockAddr}
    (forms : ∀ addr ∈ addresses, ∀ form ∈ addresses, compareSockAddr addr form = true)
    (away : ∀ addr ∈ addresses, compareSockAddr pktRecvPeer addr = false)
    (apart : ∀ entry ∈ order, ∀ addr ∈ addresses, compareSockAddr addr entry.2.sock = true →
      entry.2.sock ∈ addresses)
    (present : ∃ entry ∈ order, entry.2.sock ∈ addresses) :
    (sendBroadcast order frame pktRecvPeer ttl).countP (fun send => send.addr ∈ addresses) = 1 := by
  rw [sendBroadcast_eq, List.countP_map]
  apply Dedup.select_countP_eq_one
  · intro one other first second
    exact forms _ (of_decide_eq_true first) _ (of_decide_eq_true second)
  · intro one other member first clashes
    exact decide_eq_true
      (apart other (mem_others.mp member).1 _ (of_decide_eq_true first) clashes)
  · obtain ⟨entry, member, named⟩ := present
    exact ⟨entry, mem_others.mpr ⟨member, away _ named⟩, decide_eq_true named⟩

theorem exists_order_head {entry : MacEntry} {entries : List MacEntry} (member : entry ∈ entries) :
    ∃ rest, (entry :: rest).Perm entries := by
  obtain ⟨before, after, rfl⟩ := List.append_of_mem member
  exact ⟨before ++ after, List.perm_middle.symm⟩

theorem exists_order_of_others {entries chosen : List MacEntry}
    (perm : chosen.Perm (others pktRecvPeer entries)) :
    ∃ order : List MacEntry, order.Perm entries ∧ others pktRecvPeer order = chosen := by
  refine ⟨chosen ++ entries.filter (fun entry => compareSockAddr pktRecvPeer entry.2.sock), ?_, ?_⟩
  · have halves := List.filter_append_perm
      (fun entry : MacEntry => !compareSockAddr pktRecvPeer entry.2.sock) entries
    simp only [Bool.not_not] at halves
    exact (perm.append_right _).trans halves
  · have kept : ∀ entry ∈ chosen, (!compareSockAddr pktRecvPeer entry.2.sock) = true := by
      intro entry member
      simpa using (mem_others.mp (perm.subset member)).2
    rw [others, List.filter_append, List.filter_eq_self.mpr kept, List.filter_filter]
    simp

end TalusVSwitch
