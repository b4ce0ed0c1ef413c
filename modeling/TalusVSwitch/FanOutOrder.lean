import TalusVSwitch.Broadcast

namespace TalusVSwitch

/-- A copy by the endpoint it reaches and the TTL it carries. -/
def Send.pair (send : Send) : Option Endpoint × UInt8 := (send.addr.endpoint, send.ttl)

/-- The pairs sent are the same for every enumeration order. -/
def OrderFree (table : MacMap) (frame : Buffer) (pktRecvPeer : SockAddr) (ttl : UInt8) : Prop :=
  ∀ order order' : List MacEntry, order.Perm table.entries → order'.Perm table.entries →
    ∀ pair, pair ∈ (sendBroadcast order frame pktRecvPeer ttl).map Send.pair ↔
      pair ∈ (sendBroadcast order' frame pktRecvPeer ttl).map Send.pair

/-- For every enumeration order, if the uplink is not the source, one copy goes to
it and carries TTL `ttl - 1`, and every copy elsewhere carries TTL 0. -/
def UplinkKeepsBudget (table : MacMap) (uplink : MacPeer) (frame : Buffer) (pktRecvPeer : SockAddr)
    (ttl : UInt8) : Prop :=
  ∀ order : List MacEntry, order.Perm table.entries →
    compareSockAddr pktRecvPeer uplink.sock = false →
      ((sendBroadcast order frame pktRecvPeer ttl).filter
          (fun send => send.addr.endpoint = uplink.sock.endpoint)).map Send.ttl = [ttl - 1] ∧
        ∀ send ∈ sendBroadcast order frame pktRecvPeer ttl,
          send.addr.endpoint ≠ uplink.sock.endpoint → send.ttl = 0

/-- Away from the source, addresses the comparison identifies name one endpoint, and
no other entry shares the uplink's address unless the hop budget is 1. -/
def Undisputed (table : MacMap) (pktRecvPeer : SockAddr) (ttl : UInt8) : Prop :=
  ∀ one ∈ others pktRecvPeer table.entries, ∀ other ∈ others pktRecvPeer table.entries, one ≠ other →
    (sameAddr one other = true → one.2.sock.endpoint = other.2.sock.endpoint) ∧
    (one.1 = MAC_BROADCAST →
      sameAddr one other = true ∨ one.2.sock.endpoint = other.2.sock.endpoint →
        ttl = 1 ∧ sameAddr one other = true)

variable {table : MacMap} {uplink : MacPeer} {frame : Buffer} {pktRecvPeer : SockAddr} {ttl : UInt8}

theorem sameAddr_comm (one other : MacEntry) : sameAddr one other = sameAddr other one :=
  compareSockAddr_comm _ _

theorem others_perm {order order' : List MacEntry} (perm : order.Perm order') :
    (others pktRecvPeer order).Perm (others pktRecvPeer order') :=
  perm.filter _

theorem entry_eq_of_key {one other : MacEntry} (first : one ∈ table.entries)
    (second : other ∈ table.entries) (key : one.1 = other.1) : one = other := by
  obtain ⟨mac, peerInfo⟩ := one
  obtain ⟨mac', peerInfo'⟩ := other
  simp only at key
  subst key
  have same := (AList.mem_lookup_iff.mpr first).symm.trans (AList.mem_lookup_iff.mpr second)
  rw [Option.some.inj same]

private theorem pairs_eq (order : List MacEntry) :
    (sendBroadcast order frame pktRecvPeer ttl).map Send.pair =
      (Dedup.select sameAddr [] (others pktRecvPeer order)).map
        (fun entry => (copyTo frame.bytes ttl entry).pair) := by
  rw [sendBroadcast_eq, List.map_map]
  rfl

/-- Entries that clash in an undisputed table yield the same pair. -/
private theorem pair_agree (undisputed : Undisputed table pktRecvPeer ttl) {one other : MacEntry}
    (first : one ∈ others pktRecvPeer table.entries)
    (second : other ∈ others pktRecvPeer table.entries) (clash : sameAddr one other = true) :
    (copyTo frame.bytes ttl one).pair = (copyTo frame.bytes ttl other).pair := by
  by_cases same : one = other
  · rw [same]
  · obtain ⟨endpoint, budget⟩ := undisputed one first other second same
    have budget' := (undisputed other second one first (Ne.symm same)).2
    simp only [Send.pair, copyTo, endpoint clash, Prod.mk.injEq, true_and, broadcastTtl]
    by_cases uplinkOne : one.1 = MAC_BROADCAST
    · have last := (budget uplinkOne (.inl clash)).1
      simp [last]
    · by_cases uplinkOther : other.1 = MAC_BROADCAST
      · have last := (budget' uplinkOther (.inl ((sameAddr_comm other one).trans clash))).1
        simp [last]
      · simp [uplinkOne, uplinkOther]

theorem orderFree_of_undisputed (undisputed : Undisputed table pktRecvPeer ttl) :
    OrderFree table frame pktRecvPeer ttl := by
  have whole (order : List MacEntry) (perm : order.Perm table.entries)
      (pair : Option Endpoint × UInt8) :
      pair ∈ (sendBroadcast order frame pktRecvPeer ttl).map Send.pair ↔
        pair ∈ (others pktRecvPeer table.entries).map
          (fun entry => (copyTo frame.bytes ttl entry).pair) := by
    have kept := @others_perm pktRecvPeer _ _ perm
    rw [pairs_eq, Dedup.select_labels]
    · exact (kept.map _).mem_iff
    · intro one first other second clash
      exact pair_agree undisputed (kept.subset first) (kept.subset second) clash
  intro order order' perm perm' pair
  rw [whole order perm, whole order' perm']

/-- In an undisputed table, two entries that share the uplink's endpoint clash. -/
private theorem clash_at_uplink (found : table.lookup MAC_BROADCAST = some uplink)
    (undisputed : Undisputed table pktRecvPeer ttl)
    (reached : compareSockAddr pktRecvPeer uplink.sock = false) {one other : MacEntry}
    (first : one ∈ others pktRecvPeer table.entries) (second : other ∈ others pktRecvPeer table.entries)
    (distinct : one ≠ other) (oneEndpoint : one.2.sock.endpoint = uplink.sock.endpoint)
    (otherEndpoint : other.2.sock.endpoint = uplink.sock.endpoint) : sameAddr other one = true := by
  have stored : (⟨MAC_BROADCAST, uplink⟩ : MacEntry) ∈ others pktRecvPeer table.entries :=
    mem_others.mpr ⟨AList.mem_lookup_iff.mp found, reached⟩
  have shared (entry : MacEntry) (member : entry ∈ others pktRecvPeer table.entries)
      (apart : (⟨MAC_BROADCAST, uplink⟩ : MacEntry) ≠ entry)
      (endpoint : entry.2.sock.endpoint = uplink.sock.endpoint) :
      compareSockAddr uplink.sock entry.2.sock = true :=
    ((undisputed _ stored entry member apart).2 rfl (.inr endpoint.symm)).2
  by_cases oneUplink : (⟨MAC_BROADCAST, uplink⟩ : MacEntry) = one
  · subst oneUplink
    exact (sameAddr_comm _ _).trans (shared other second distinct otherEndpoint)
  · by_cases otherUplink : (⟨MAC_BROADCAST, uplink⟩ : MacEntry) = other
    · subst otherUplink
      exact shared one first oneUplink oneEndpoint
    · have clash := shared one first oneUplink oneEndpoint
      cases named : uplink.sock.endpoint with
      | some endpoint =>
        exact compareSockAddr_of_endpoint (otherEndpoint.trans named) (oneEndpoint.trans named)
      | none =>
        cases zeroed : uplink.sock <;> simp [zeroed, SockAddr.endpoint] at named clash

private theorem eq_singleton {Item : Type} {items : List Item} (nodup : items.Nodup)
    (alone : ∀ one ∈ items, ∀ other ∈ items, one = other) {item : Item} (member : item ∈ items) :
    items = [item] := by
  match items with
  | [] => simp at member
  | [_] => rw [List.mem_singleton.mp member]
  | first :: second :: rest =>
    have same := alone first (by simp) second (by simp)
    simp [same] at nodup

private theorem broadcastTtl_other {entry : MacEntry} (stored : entry ∈ table.entries)
    (found : table.lookup MAC_BROADCAST = some uplink)
    (apart : entry ≠ ⟨MAC_BROADCAST, uplink⟩) : broadcastTtl entry.1 ttl = 0 := by
  have key : entry.1 ≠ MAC_BROADCAST :=
    fun same => apart (entry_eq_of_key stored (AList.mem_lookup_iff.mp found) same)
  simp [broadcastTtl, key]

theorem uplinkKeepsBudget_of_undisputed (found : table.lookup MAC_BROADCAST = some uplink)
    (undisputed : Undisputed table pktRecvPeer ttl) :
    UplinkKeepsBudget table uplink frame pktRecvPeer ttl := by
  intro order perm reached
  have kept := @others_perm pktRecvPeer _ _ perm
  have uplinkMember : (⟨MAC_BROADCAST, uplink⟩ : MacEntry) ∈ others pktRecvPeer order :=
    mem_others.mpr ⟨perm.symm.subset (AList.mem_lookup_iff.mp found), reached⟩
  have subset {entry : MacEntry} (chosen : entry ∈ Dedup.select sameAddr [] (others pktRecvPeer order)) :
      entry ∈ others pktRecvPeer table.entries := kept.subset (Dedup.select_subset chosen)
  have nodup : (Dedup.select sameAddr [] (others pktRecvPeer order)).Nodup :=
    (Dedup.select_sublist _ _).nodup ((perm.nodup_iff.mpr table.nodupKeys.nodup).filter _)
  constructor
  · have alone : ∀ one ∈ (Dedup.select sameAddr [] (others pktRecvPeer order)).filter
          (fun entry => entry.2.sock.endpoint = uplink.sock.endpoint),
        ∀ other ∈ (Dedup.select sameAddr [] (others pktRecvPeer order)).filter
          (fun entry => entry.2.sock.endpoint = uplink.sock.endpoint), one = other := by
      intro one first other second
      obtain ⟨firstChosen, firstEndpoint⟩ := List.mem_filter.mp first
      obtain ⟨secondChosen, secondEndpoint⟩ := List.mem_filter.mp second
      by_contra distinct
      have clash := clash_at_uplink found undisputed reached (subset secondChosen)
        (subset firstChosen) (Ne.symm distinct) (of_decide_eq_true secondEndpoint)
        (of_decide_eq_true firstEndpoint)
      rw [Dedup.select_apart sameAddr_comm firstChosen secondChosen distinct] at clash
      cases clash
    -- the uplink entry is selected itself, or an entry that clashes with it, which
    -- an undisputed table allows only where both carry TTL 0
    have present : ∃ entry ∈ (Dedup.select sameAddr [] (others pktRecvPeer order)).filter
          (fun entry => entry.2.sock.endpoint = uplink.sock.endpoint),
        broadcastTtl entry.1 ttl = ttl - 1 := by
      rcases @Dedup.select_covers _ sameAddr _ [] _ uplinkMember with own | ⟨entry, chosen, clash⟩
      · exact ⟨_, List.mem_filter.mpr ⟨own, by simp⟩, by simp [broadcastTtl]⟩
      · rw [List.nil_append] at chosen
        by_cases same : (⟨MAC_BROADCAST, uplink⟩ : MacEntry) = entry
        · subst same
          exact ⟨_, List.mem_filter.mpr ⟨chosen, by simp⟩, by simp [broadcastTtl]⟩
        · obtain ⟨endpoint, budget⟩ := undisputed _ (kept.subset uplinkMember) entry (subset chosen) same
          have last := (budget rfl (.inl clash)).1
          refine ⟨entry, List.mem_filter.mpr ⟨chosen, by simp [endpoint clash]⟩, ?_⟩
          rw [broadcastTtl_other (mem_others.mp (subset chosen)).1 found (Ne.symm same), last]
          rfl
    obtain ⟨entry, member, budget⟩ := present
    have single : (sendBroadcast order frame pktRecvPeer ttl).filter
        (fun send => send.addr.endpoint = uplink.sock.endpoint) = [copyTo frame.bytes ttl entry] := by
      rw [sendBroadcast_eq, List.filter_map]
      exact congrArg (List.map _) (eq_singleton (nodup.filter _) alone member)
    rw [single]
    exact congrArg (fun hops => [hops]) budget
  · intro send sent elsewhere
    rw [sendBroadcast_eq] at sent
    obtain ⟨entry, chosen, rfl⟩ := List.mem_map.mp sent
    apply broadcastTtl_other (mem_others.mp (subset chosen)).1 found
    rintro rfl
    exact elsewhere rfl

private theorem sent_first {entry : MacEntry} (reached : compareSockAddr pktRecvPeer entry.2.sock = false)
    (rest : List MacEntry) :
    copyTo frame.bytes ttl entry ∈ sendBroadcast (entry :: rest) frame pktRecvPeer ttl := by
  rw [sendBroadcast_eq, others, List.filter_cons]
  simp [reached, Dedup.select_head]

private theorem sent_both {one other : MacEntry}
    (reachedOne : compareSockAddr pktRecvPeer one.2.sock = false)
    (reachedOther : compareSockAddr pktRecvPeer other.2.sock = false)
    (apart : sameAddr other one = false) (rest : List MacEntry) :
    ∃ later, sendBroadcast (one :: other :: rest) frame pktRecvPeer ttl =
      copyTo frame.bytes ttl one :: copyTo frame.bytes ttl other :: later := by
  rw [sendBroadcast_eq, others, List.filter_cons, List.filter_cons]
  simp [reachedOne, reachedOther, Dedup.select, apart]

/-- Two endpoints taken for one, of which one is native: its pair is sent or not,
depending on which entry comes first. -/
private theorem orderFree_exposed {one other : MacEntry}
    (first : one ∈ others pktRecvPeer table.entries)
    (second : other ∈ others pktRecvPeer table.entries) (clash : sameAddr one other = true)
    (different : one.2.sock.endpoint ≠ other.2.sock.endpoint)
    (native : one.2.sock.Native) (orderFree : OrderFree table frame pktRecvPeer ttl) : False := by
  have distinct : (copyTo frame.bytes ttl other).pair ≠ (copyTo frame.bytes ttl one).pair :=
    fun same => different (congrArg Prod.fst same).symm
  obtain ⟨order, order', perm, perm', sent, unsent⟩ :=
    @Dedup.select_order_dependent MacEntry _ sameAddr
      (fun entry => (copyTo frame.bytes ttl entry).pair) other one _ second first distinct (by
        intro entry member same
        have addr : entry.2.sock = one.2.sock := native _ (congrArg Prod.fst same)
        show compareSockAddr entry.2.sock other.2.sock = true
        rw [addr]
        exact clash)
  obtain ⟨whole, wholePerm, rfl⟩ := exists_order_of_others perm
  obtain ⟨whole', wholePerm', rfl⟩ := exists_order_of_others perm'
  apply unsent
  rw [← pairs_eq] at sent ⊢
  exact (orderFree whole whole' wholePerm wholePerm' _).mp sent

theorem undisputed_of_behaviour (found : table.lookup MAC_BROADCAST = some uplink)
    (orderFree : OrderFree table frame pktRecvPeer ttl)
    (budget : UplinkKeepsBudget table uplink frame pktRecvPeer ttl) :
    Undisputed table pktRecvPeer ttl := by
  intro one first other second distinct
  have agree : sameAddr one other = true → one.2.sock.endpoint = other.2.sock.endpoint := by
    intro clash
    by_contra different
    rcases native_of_compare clash different with native | native
    · exact orderFree_exposed first second clash different native orderFree
    · exact orderFree_exposed second first ((sameAddr_comm _ _).trans clash)
        (Ne.symm different) native orderFree
  refine ⟨agree, ?_⟩
  intro key shared
  obtain ⟨stored, reached⟩ := mem_others.mp first
  obtain ⟨otherStored, otherReached⟩ := mem_others.mp second
  have uplinkEntry : one = ⟨MAC_BROADCAST, uplink⟩ :=
    entry_eq_of_key stored (AList.mem_lookup_iff.mp found) key
  subst uplinkEntry
  have otherTtl := @broadcastTtl_other _ _ ttl _ otherStored found (Ne.symm distinct)
  cases clash : sameAddr ⟨MAC_BROADCAST, uplink⟩ other with
  | true =>
    -- the other entry enumerated first is served with TTL 0
    obtain ⟨rest, perm⟩ := exists_order_head otherStored
    obtain ⟨single, _⟩ := budget _ perm reached
    have served : (copyTo frame.bytes ttl other).ttl ∈ ([ttl - 1] : List UInt8) := by
      rw [← single]
      apply List.mem_map_of_mem
      exact List.mem_filter.mpr ⟨sent_first otherReached rest, by simp [copyTo, agree clash]⟩
    have last : ttl - 1 = 0 := by
      rw [← List.mem_singleton.mp served]
      exact otherTtl
    refine ⟨?_, rfl⟩
    calc
      ttl = ttl - 1 + 1 := (UInt8.sub_add_cancel ttl 1).symm
      _ = 1 := by rw [last]; rfl
  | false =>
    -- both are served, at one endpoint
    have endpoint : uplink.sock.endpoint = other.2.sock.endpoint := by
      rcases shared with same | endpoint
      · rw [clash] at same
        cases same
      · exact endpoint
    obtain ⟨rest, perm⟩ := exists_order_head stored
    have otherLater : other ∈ rest := by
      rcases List.mem_cons.mp (perm.symm.subset otherStored) with same | later
      · exact absurd same.symm distinct
      · exact later
    obtain ⟨rest', perm'⟩ := exists_order_head otherLater
    obtain ⟨later, sent⟩ := @sent_both frame _ ttl _ _ reached otherReached
      ((sameAddr_comm _ _).trans clash) rest'
    obtain ⟨single, _⟩ := budget _ ((perm'.cons _).trans perm) reached
    rw [sent] at single
    simp [copyTo, ← endpoint] at single

/-- A broadcast is independent of the enumeration order, with the uplink's copy and
no other keeping the hop budget, exactly when the table is undisputed. -/
theorem fan_out_iff_undisputed (found : table.lookup MAC_BROADCAST = some uplink) :
    OrderFree table frame pktRecvPeer ttl ∧ UplinkKeepsBudget table uplink frame pktRecvPeer ttl ↔
      Undisputed table pktRecvPeer ttl := by
  constructor
  · rintro ⟨orderFree, budget⟩
    exact undisputed_of_behaviour found orderFree budget
  · intro undisputed
    exact ⟨orderFree_of_undisputed undisputed, uplinkKeepsBudget_of_undisputed found undisputed⟩

/-- A MAC learned through the uplink's own address: enumerated first, it takes the
hop budget from the uplink's only copy. -/
theorem learned_through_uplink :
    ¬ OrderFree ((AList.singleton MAC_BROADCAST ⟨.inet 1 9001, 8, 0⟩).insert 0x20000
        ⟨.inet 1 9001, 8, 0⟩) ⟨[], []⟩ .unspec 8 ∧
      ¬ UplinkKeepsBudget ((AList.singleton MAC_BROADCAST ⟨.inet 1 9001, 8, 0⟩).insert 0x20000
        ⟨.inet 1 9001, 8, 0⟩) ⟨.inet 1 9001, 8, 0⟩ ⟨[], []⟩ .unspec 8 := by
  constructor
  · intro orderFree
    have same := orderFree _ _ (List.Perm.refl _) (List.Perm.swap _ _ _) (some ⟨.v4 1, 9001⟩, 7)
    exact absurd same (by decide)
  · intro budget
    exact absurd (budget _ (List.Perm.refl _) rfl).1 (by decide)

/-- A table whose other entry lives elsewhere is undisputed. -/
theorem fan_out_elsewhere :
    OrderFree ((AList.singleton MAC_BROADCAST ⟨.inet 1 9001, 8, 0⟩).insert 0x20000
        ⟨.inet 2 9001, 8, 0⟩) ⟨[], []⟩ .unspec 8 ∧
      UplinkKeepsBudget ((AList.singleton MAC_BROADCAST ⟨.inet 1 9001, 8, 0⟩).insert 0x20000
        ⟨.inet 2 9001, 8, 0⟩) ⟨.inet 1 9001, 8, 0⟩ ⟨[], []⟩ .unspec 8 := by
  apply (fan_out_iff_undisputed rfl).mpr
  unfold Undisputed
  decide

end TalusVSwitch
