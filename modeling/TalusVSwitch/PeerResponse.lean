import TalusVSwitch.Library.Interrupted
import TalusVSwitch.Control
import TalusVSwitch.InetText

namespace TalusVSwitch

/-- A task that sends keep-alives for a MAC to an address. -/
structure Probe where
  mac : Mac
  peer : SockAddr
deriving DecidableEq, Repr

/-- What `OnQueryPeerInfoResponse` comes to: an index beyond the parts, an exception of
`stoi`, or the core's address and MAC in `Config`. -/
inductive PeerInfo where
  | beyond
  | thrown
  | stored (coreIp : Bytes) (macCore : Mac)
deriving DecidableEq, Repr

namespace VSCtrlHelper

/-- `OnQueryPeerInfoResponse` -/
def OnQueryPeerInfoResponse (payload : Bytes) : PeerInfo :=
  match split payload 44 with
  | _ :: corePeerIp :: corePeerMac :: _ =>
    match macToUint64 corePeerMac with
    | some macCore => .stored corePeerIp macCore
    | none => .thrown
  | _ => .beyond

variable (inet : InetText) (config : Config) (now : Nat)

/-- The loop body of `OnQueryPeersResponse`: the probe it posts, and the table, in which
the lookup may create the broadcast entry. `none` is an exception. -/
def examineItem (table : MacMap) (item : Bytes) : Option (Option Probe × MacMap) :=
  match split item 45 with
  | [macText, addr, port] => do
    let mac ← macToUint64 macText
    if mac == MAC_BROADCAST then some (none, table)
    else
      let peer ← SockUtil.make_sockaddr inet (cStr addr) (toUInt16 (atoi (cStr port)))
      match table.getMacPeer now mac with
      | (macMapPeer, _, table) =>
        if config.macLocal != mac && compareSockAddr macMapPeer config.corePeer then
          some (some ⟨mac, peer⟩, table)
        else some (none, table)
  | _ => some (none, table)

/-- The loop of `OnQueryPeersResponse`, which an exception ends. -/
def examineItems (table : MacMap) : List Bytes → List Probe × MacMap
  | [] => ([], table)
  | item :: rest =>
    match examineItem inet config now table item with
    | none => ([], table)
    | some (probe, table) =>
      let later := examineItems table rest
      (probe.toList ++ later.1, later.2)

/-- What is taken for the items of a peer list: the whole payload, header included, in
pieces, but for the first. -/
def itemsOf (payload : Bytes) : List Bytes := (split payload 44).drop 1

/-- `OnQueryPeersResponse` -/
def OnQueryPeersResponse (table : MacMap) (payload : Bytes) : List Probe × MacMap :=
  examineItems inet config now table (itemsOf payload)

/-- A text `make_sockaddr` takes for an address. -/
def IsAddressText (host : Bytes) : Prop :=
  (inet.pton4 (cStr host)).isSome ∨ (inet.pton6 (cStr host)).isSome

/-- An item of three fields, a MAC and an address among them. -/
def WellFormed (item : Bytes) : Prop :=
  ∃ macText addr port, split item 45 = [macText, addr, port] ∧ IsMacText macText ∧
    IsAddressText inet addr

/-- An item of three fields whose MAC text `stoi` rejects, or whose address text is no
address while its MAC is not the broadcast MAC. -/
def Throws (item : Bytes) : Prop :=
  ∃ macText addr port, split item 45 = [macText, addr, port] ∧
    (macToUint64 macText = none ∨
      ∃ mac, macToUint64 macText = some mac ∧ mac ≠ MAC_BROADCAST ∧ ¬ IsAddressText inet addr)

/-- An item of three fields that name a peer, of which the table knows no address but
the uplink's. -/
def Asks (table : MacMap) (item : Bytes) (probe : Probe) : Prop :=
  ∃ macText addr port, split item 45 = [macText, addr, port] ∧
    macToUint64 macText = some probe.mac ∧ probe.mac ≠ MAC_BROADCAST ∧
    probe.mac ≠ config.macLocal ∧
    SockUtil.make_sockaddr inet (cStr addr) (toUInt16 (atoi (cStr port))) = some probe.peer ∧
    compareSockAddr (table.getMacPeer now probe.mac).1 config.corePeer = true

variable {inet config now} {table : MacMap} {item : Bytes}

theorem make_sockaddr_eq_none {host : Bytes} {port : UInt16} :
    SockUtil.make_sockaddr inet (cStr host) port = none ↔ ¬ IsAddressText inet host := by
  unfold SockUtil.make_sockaddr IsAddressText
  cases inet.pton4 (cStr host) <;> simp

theorem exists_fields_iff {fields : List Bytes} {macText addr port : Bytes}
    (same : fields = [macText, addr, port]) {holds : Bytes → Bytes → Bytes → Prop} :
    (∃ one two three, fields = [one, two, three] ∧ holds one two three) ↔
      holds macText addr port := by
  subst same
  constructor
  · rintro ⟨_, _, _, same, held⟩
    cases same
    exact held
  · intro held
    exact ⟨_, _, _, rfl, held⟩

theorem throws_iff {macText addr port : Bytes} (fields : split item 45 = [macText, addr, port]) :
    Throws inet item ↔ (macToUint64 macText = none ∨
      ∃ mac, macToUint64 macText = some mac ∧ mac ≠ MAC_BROADCAST ∧ ¬ IsAddressText inet addr) :=
  exists_fields_iff fields

theorem asks_iff {macText addr port : Bytes} (fields : split item 45 = [macText, addr, port])
    {probe : Probe} :
    Asks inet config now table item probe ↔
      (macToUint64 macText = some probe.mac ∧ probe.mac ≠ MAC_BROADCAST ∧
        probe.mac ≠ config.macLocal ∧
        SockUtil.make_sockaddr inet (cStr addr) (toUInt16 (atoi (cStr port))) = some probe.peer ∧
        compareSockAddr (table.getMacPeer now probe.mac).1 config.corePeer = true) :=
  exists_fields_iff fields

theorem info_eq_stored {payload coreIp : Bytes} {macCore : Mac} :
    OnQueryPeerInfoResponse payload = .stored coreIp macCore ↔
      ∃ first third rest, split payload 44 = first :: coreIp :: third :: rest ∧
        macToUint64 third = some macCore := by
  unfold OnQueryPeerInfoResponse
  split
  · rename_i first second third rest parts
    cases read : macToUint64 third <;> simp [parts, read]
  · rename_i few
    simp only [reduceCtorEq, false_iff]
    rintro ⟨first, third, rest, parts, _⟩
    exact few first coreIp third rest parts

/-- What one item comes to: an exception, nothing, or a probe. -/
theorem examineItem_cases (inet : InetText) (config : Config) (now : Nat) (table : MacMap)
    (item : Bytes) :
    (Throws inet item ∧ examineItem inet config now table item = none) ∨
    (¬ Throws inet item ∧ ∃ probe after, examineItem inet config now table item = some (probe, after) ∧
      (after = table ∨ ∃ mac, after = (table.getMacPeer now mac).2.2) ∧
      ∀ asked, probe = some asked ↔ Asks inet config now table item asked) := by
  unfold examineItem
  split
  · rename_i macText addr port fields
    rw [throws_iff fields]
    simp only [asks_iff fields]
    cases read : macToUint64 macText with
    | none => exact .inl ⟨.inl rfl, rfl⟩
    | some mac =>
      by_cases broadcast : mac = MAC_BROADCAST
      · right
        refine ⟨by simp [broadcast], none, table, by simp [broadcast], .inl rfl, ?_⟩
        intro asked
        simp only [reduceCtorEq, Option.some.injEq, false_iff, not_and]
        rintro rfl other
        exact absurd broadcast other
      · cases made : SockUtil.make_sockaddr inet (cStr addr) (toUInt16 (atoi (cStr port))) with
        | none =>
          left
          refine ⟨.inr ⟨mac, rfl, broadcast, make_sockaddr_eq_none.mp made⟩, ?_⟩
          simp [broadcast]
        | some peer =>
          right
          have address : IsAddressText inet addr := by
            by_contra foreign
            rw [make_sockaddr_eq_none.mpr foreign] at made
            cases made
          refine ⟨by simp [address], ?_⟩
          rcases looked : table.getMacPeer now mac with ⟨macMapPeer, got, after⟩
          refine ⟨if config.macLocal ≠ mac ∧ compareSockAddr macMapPeer config.corePeer = true then
            some ⟨mac, peer⟩ else none, after, ?_, .inr ⟨mac, by rw [looked]⟩, ?_⟩
          · simp only [Option.bind_eq_bind, Option.bind_some, beq_iff_eq, broadcast, if_false, looked,
              Bool.and_eq_true, bne_iff_ne]
            split_ifs <;> rfl
          · intro asked
            simp only [Option.ite_none_right_eq_some, Option.some.injEq]
            constructor
            · rintro ⟨⟨other, uplink⟩, rfl⟩
              exact ⟨rfl, broadcast, other.symm, rfl, by rw [looked]; exact uplink⟩
            · rintro ⟨rfl, _, other, address', uplink⟩
              rw [looked] at uplink
              exact ⟨⟨other.symm, uplink⟩, by rw [address']⟩
  · rename_i fewer
    right
    refine ⟨?_, none, table, rfl, .inl rfl, ?_⟩
    · rintro ⟨macText, addr, port, fields, _⟩
      exact fewer macText addr port fields
    · intro asked
      simp only [reduceCtorEq, false_iff]
      rintro ⟨macText, addr, port, fields, _⟩
      exact fewer macText addr port fields

/-- Two tables that give every MAC the same address. -/
def SameAnswers (one other : MacMap) (now : Nat) : Prop :=
  ∀ mac, (one.getMacPeer now mac).1 = (other.getMacPeer now mac).1

theorem sameAnswers_getMacPeer (table : MacMap) (now : Nat) (mac : Mac) :
    SameAnswers (table.getMacPeer now mac).2.2 table now := by
  intro other
  cases hit : table.lookup mac with
  | some peerInfo => rw [MacMap.getMacPeer_found hit]
  | none =>
    cases broadcast : table.lookup MAC_BROADCAST with
    | some uplink => simp only [MacMap.getMacPeer, hit, broadcast]
    | none =>
      by_cases same : other = MAC_BROADCAST
      · subst same
        simp [MacMap.getMacPeer, hit, broadcast, MacPeer.fresh]
      · cases found : table.lookup other <;>
          simp [MacMap.getMacPeer, hit, broadcast, found, AList.lookup_insert_ne same, MacPeer.fresh]

theorem Asks.congr {after : MacMap} (same : SameAnswers after table now) {probe : Probe} :
    Asks inet config now after item probe ↔ Asks inet config now table item probe := by
  unfold Asks
  rw [same probe.mac]

theorem not_asks_of_throws {probe : Probe} (throws : Throws inet item) :
    ¬ Asks inet config now table item probe := by
  rintro ⟨macText, addr, port, fields, read, other, _, made, _⟩
  rcases (throws_iff fields).mp throws with unread | ⟨mac, read', _, foreign⟩
  · rw [read] at unread
    cases unread
  · rw [make_sockaddr_eq_none.mpr foreign] at made
    cases made

theorem mem_examineItems_of_sameAnswers {items : List Bytes} {probe : Probe} {after : MacMap}
    (same : SameAnswers after table now) :
    probe ∈ (examineItems inet config now after items).1 ↔
      ∃ item, Interrupted.Reached (Throws inet) items item ∧
        Asks inet config now table item probe := by
  induction items generalizing after with
  | nil => simp [examineItems, Interrupted.Reached]
  | cons head rest ih =>
    rw [examineItems]
    rcases examineItem_cases inet config now after head with
      ⟨throws, thrown⟩ | ⟨quiet, posted, later, examined, lookup, asked⟩
    · simp only [thrown, List.not_mem_nil, false_iff]
      rintro ⟨item, reached, asks⟩
      rcases Interrupted.reached_cons.mp reached with rfl | ⟨clear, _⟩
      · exact not_asks_of_throws throws asks
      · exact clear throws
    · have still : SameAnswers later table now := by
        rcases lookup with rfl | ⟨mac, rfl⟩
        · exact same
        · exact fun other => (sameAnswers_getMacPeer after now mac other).trans (same other)
      simp only [examined, List.mem_append, Option.mem_toList, asked,
        Asks.congr same, ih still, Interrupted.reached_cons, quiet, not_false_eq_true, true_and]
      constructor
      · rintro (here | ⟨item, reached, asks⟩)
        · exact ⟨head, .inl rfl, here⟩
        · exact ⟨item, .inr reached, asks⟩
      · rintro ⟨item, rfl | reached, asks⟩
        · exact .inl asks
        · exact .inr ⟨item, reached, asks⟩

/-- The probes posted are those asked for by items with nothing that throws before them. -/
theorem mem_examineItems {items : List Bytes} {probe : Probe} :
    probe ∈ (examineItems inet config now table items).1 ↔
      ∃ item, Interrupted.Reached (Throws inet) items item ∧
        Asks inet config now table item probe :=
  mem_examineItems_of_sameAnswers fun _ => rfl

theorem mem_examineItems_alone {probe : Probe} :
    probe ∈ (examineItems inet config now table [item]).1 ↔
      Asks inet config now table item probe := by
  rw [mem_examineItems]
  constructor
  · rintro ⟨other, reached, asks⟩
    rcases Interrupted.reached_cons.mp reached with rfl | ⟨_, _, _, split, _⟩
    · exact asks
    · simp at split
  · intro asks
    exact ⟨item, Interrupted.reached_cons.mpr (.inl rfl), asks⟩

theorem ill_formed_iff :
    (¬ WellFormed inet item → (examineItems inet config now table [item]).1 = []) ↔
      ∀ probe macText addr port, Asks inet config now table item probe →
        split item 45 = [macText, addr, port] → IsMacText macText := by
  constructor
  · intro silent probe macText addr port asks fields
    by_contra foreign
    have empty := silent (by
      rintro ⟨macText', addr', port', fields', grammar, _⟩
      rw [fields] at fields'
      injection fields' with same
      exact foreign (same ▸ grammar))
    have posted := mem_examineItems_alone.mpr asks
    rw [empty] at posted
    cases posted
  · intro grammar ill
    apply List.eq_nil_iff_forall_not_mem.mpr
    intro probe posted
    have asks := mem_examineItems_alone.mp posted
    obtain ⟨macText, addr, port, fields, _, _, _, made, _⟩ := asks
    have address : IsAddressText inet addr := by
      by_contra foreign
      rw [make_sockaddr_eq_none.mpr foreign] at made
      cases made
    exact ill ⟨macText, addr, port, fields, grammar probe macText addr port
      (mem_examineItems_alone.mp posted) fields, address⟩

/-- The probes of a peer list are those of its items, each taken alone, and an ill-formed
item has none, exactly when nothing is asked for behind an item that throws but what is
asked for before it too, and every item that asks for a probe has a MAC text in the
grammar. -/
theorem one_bad_item_iff (inet : InetText) (config : Config) (now : Nat) (table : MacMap)
    (payload : Bytes) :
    ((∀ probe, probe ∈ (OnQueryPeersResponse inet config now table payload).1 ↔
        ∃ item ∈ itemsOf payload, probe ∈ (examineItems inet config now table [item]).1) ∧
      ∀ item ∈ itemsOf payload, ¬ WellFormed inet item →
        (examineItems inet config now table [item]).1 = []) ↔
    ((∀ front bad back, itemsOf payload = front ++ bad :: back → Throws inet bad →
        ∀ later ∈ back, ∀ probe, Asks inet config now table later probe →
          ∃ earlier ∈ front, Asks inet config now table earlier probe) ∧
      ∀ item ∈ itemsOf payload, ∀ probe macText addr port, Asks inet config now table item probe →
        split item 45 = [macText, addr, port] → IsMacText macText) := by
  simp only [mem_examineItems_alone, ill_formed_iff, OnQueryPeersResponse]
  simp only [mem_examineItems]
  rw [Interrupted.yields_all_iff fun item probe => @not_asks_of_throws inet config now table item probe]

/-- A core's peer list with an item that is none, before one that is. -/
def spoiltList : Bytes :=
  header ⟨0x0200000000020000, 4, .unspec, []⟩ .ReQueryPeers ++
    text "x-y-z,02:00:00:00:00:01-10.0.0.9-9001,"

/-- What follows the first item is never examined: `stoi` has thrown by then. -/
theorem bad_item_spoils :
    ¬ ∀ probe,
      probe ∈ (OnQueryPeersResponse .unabridged ⟨0x0300000000020000, 4, .inet 0x0A000001 9001, []⟩ 0
          ((∅ : MacMap).addMacPeer 0 MAC_BROADCAST (.inet 0x0A000001 9001) 4) spoiltList).1 ↔
        ∃ item ∈ itemsOf spoiltList,
          probe ∈ (examineItems .unabridged ⟨0x0300000000020000, 4, .inet 0x0A000001 9001, []⟩ 0
            ((∅ : MacMap).addMacPeer 0 MAC_BROADCAST (.inet 0x0A000001 9001) 4) [item]).1 := by
  intro same
  have asked := (same ⟨0x0100000000020000, .inet 0x0A000009 9001⟩).mpr
    ⟨text "02:00:00:00:00:01-10.0.0.9-9001", by decide +kernel, by decide +kernel⟩
  exact absurd asked (by decide +kernel)

end VSCtrlHelper

end TalusVSwitch
