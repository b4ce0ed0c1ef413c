import Mathlib.Data.List.AList
import TalusVSwitch.SockAddr
import TalusVSwitch.Frame

/-! The table of `MacMap.h`. Each operation is one critical section under the
table's mutex; the removals a scan posts are tasks that run later. -/

namespace TalusVSwitch

/-- `MacMap::MacPeer`; of the ticker, the millisecond it was last reset. -/
structure MacPeer where
  sock : SockAddr
  ttl : UInt8
  ticker : Nat
deriving DecidableEq, Repr

/-- What `operator[]` creates on a miss. -/
def MacPeer.fresh (now : Nat) : MacPeer := ⟨.unspec, 0, now⟩

abbrev MacMap := AList (fun _ : Mac => MacPeer)

abbrev MacEntry := Sigma (fun _ : Mac => MacPeer)

/-- The order an `unordered_map` is enumerated in: some order of its entries. -/
structure Enumeration where
  order : MacMap → List MacEntry
  perm : ∀ table, (order table).Perm table.entries

/-- The order the model's own list keeps. -/
def Enumeration.stored : Enumeration := ⟨fun table => table.entries, fun _ => List.Perm.refl _⟩

/-- The body of `addMacPeer` on the entry it found or created. -/
def MacPeer.learn (peerInfo : MacPeer) (now : Nat) (peer : SockAddr) (ttl : UInt8) : MacPeer :=
  if !compareSockAddr peerInfo.sock peer then
    if peerInfo.ttl ≤ ttl then ⟨peer, ttl, now⟩ else peerInfo
  else { peerInfo with ticker := now }

/-- The task a scan posts for one entry: its key and the idle time sampled. -/
structure RemovalTask where
  mac : Mac
  time : Nat
deriving DecidableEq, Repr

/-- Whether the task removes its entry when it runs. -/
def RemovalTask.due (task : RemovalTask) : Bool :=
  20 * 1000 < task.time && task.mac != MAC_BROADCAST

namespace MacMap

/-- `addMacPeer` -/
def addMacPeer (table : MacMap) (now : Nat) (mac : Mac) (peer : SockAddr) (ttl : UInt8) : MacMap :=
  table.insert mac (((table.lookup mac).getD (.fresh now)).learn now peer ttl)

/-- `getMacPeer`: the address, whether the key was found, and the table, in which
`operator[]` creates the broadcast entry on a miss. -/
def getMacPeer (table : MacMap) (now : Nat) (mac : Mac) : SockAddr × Bool × MacMap :=
  match table.lookup mac with
  | some peerInfo => (peerInfo.sock, true, table)
  | none =>
    match table.lookup MAC_BROADCAST with
    | some uplink => (uplink.sock, false, table)
    | none => (.unspec, false, table.insert MAC_BROADCAST (.fresh now))

/-- `removePeer` -/
def removePeer (table : MacMap) (mac : Mac) : MacMap := table.erase mac

/-- The tasks `checkMac` posts. -/
def checkMac (order : List MacEntry) (now : Nat) : List RemovalTask :=
  order.map (fun entry => ⟨entry.1, now - entry.2.ticker⟩)

/-- One posted task, when the poller runs it. -/
def runRemoval (table : MacMap) (task : RemovalTask) : MacMap :=
  if task.due then removePeer table task.mac else table

end MacMap

/-- What `addMacPeer` does to an entry: refresh, replace, or ignore. -/
theorem MacPeer.learn_cases (peerInfo : MacPeer) (now : Nat) (peer : SockAddr) (ttl : UInt8) :
    (compareSockAddr peerInfo.sock peer = true ∧
      peerInfo.learn now peer ttl = { peerInfo with ticker := now }) ∨
    (compareSockAddr peerInfo.sock peer = false ∧ peerInfo.ttl ≤ ttl ∧
      peerInfo.learn now peer ttl = ⟨peer, ttl, now⟩) ∨
    (compareSockAddr peerInfo.sock peer = false ∧ ttl < peerInfo.ttl ∧
      peerInfo.learn now peer ttl = peerInfo) := by
  unfold MacPeer.learn
  cases same : compareSockAddr peerInfo.sock peer with
  | true => exact .inl ⟨rfl, by simp⟩
  | false =>
    by_cases better : peerInfo.ttl ≤ ttl
    · exact .inr (.inl ⟨rfl, better, by simp [better]⟩)
    · exact .inr (.inr ⟨rfl, UInt8.not_le.mp better, by simp [better]⟩)

@[simp] theorem MacPeer.learn_fresh (now : Nat) (peer : SockAddr) (ttl : UInt8) :
    (MacPeer.fresh now).learn now peer ttl = ⟨peer, ttl, now⟩ := by
  have least : (0 : UInt8) ≤ ttl := UInt8.zero_le
  simp [MacPeer.learn, MacPeer.fresh, least]

namespace MacMap

variable {table : MacMap} {now : Nat} {mac other : Mac} {peer : SockAddr} {ttl : UInt8}

@[simp] theorem lookup_addMacPeer :
    (addMacPeer table now mac peer ttl).lookup mac =
      some (((table.lookup mac).getD (.fresh now)).learn now peer ttl) :=
  AList.lookup_insert table

theorem lookup_addMacPeer_ne (different : other ≠ mac) :
    (addMacPeer table now mac peer ttl).lookup other = table.lookup other :=
  AList.lookup_insert_ne different

theorem lookup_addMacPeer_absent (absent : table.lookup mac = none) :
    (addMacPeer table now mac peer ttl).lookup mac = some ⟨peer, ttl, now⟩ := by
  simp [absent]

theorem mem_of_lookup {peerInfo : MacPeer} (found : table.lookup mac = some peerInfo) :
    mac ∈ table :=
  AList.lookup_isSome.mp (by rw [found, Option.isSome_some])

theorem mem_addMacPeer : other ∈ addMacPeer table now mac peer ttl ↔ other = mac ∨ other ∈ table :=
  AList.mem_insert table

/-- A lookup leaves the table alone once it holds the broadcast entry. -/
theorem getMacPeer_table (present : MAC_BROADCAST ∈ table) :
    (getMacPeer table now mac).2.2 = table := by
  obtain ⟨uplink, found⟩ := Option.isSome_iff_exists.mp (AList.lookup_isSome.mpr present)
  simp only [getMacPeer, found]
  split <;> rfl

theorem lookup_getMacPeer {peerInfo : MacPeer} (found : table.lookup other = some peerInfo) :
    (getMacPeer table now mac).2.2.lookup other = some peerInfo := by
  cases hit : table.lookup mac with
  | some stored => simpa only [getMacPeer, hit] using found
  | none =>
    cases broadcast : table.lookup MAC_BROADCAST with
    | some uplink => simpa only [getMacPeer, hit, broadcast] using found
    | none =>
      have different : other ≠ MAC_BROADCAST := by
        rintro rfl
        rw [broadcast] at found
        cases found
      simpa only [getMacPeer, hit, broadcast, AList.lookup_insert_ne different] using found

theorem lookup_getMacPeer_ne (different : other ≠ MAC_BROADCAST) :
    (getMacPeer table now mac).2.2.lookup other = table.lookup other := by
  unfold getMacPeer
  split
  · rfl
  · split
    · rfl
    · exact AList.lookup_insert_ne different

/-- What a lookup may do to a table: nothing, or create the broadcast entry where there is
none. -/
structure Kept (before after : MacMap) : Prop where
  others : ∀ mac, mac ≠ MAC_BROADCAST → after.lookup mac = before.lookup mac
  whole : MAC_BROADCAST ∈ before → after = before

theorem Kept.refl (table : MacMap) : Kept table table := ⟨fun _ _ => rfl, fun _ => rfl⟩

theorem kept_getMacPeer : Kept table (getMacPeer table now mac).2.2 :=
  ⟨fun _ different => lookup_getMacPeer_ne different, getMacPeer_table⟩

/-- An address with a port comes from an entry. -/
theorem exists_of_getMacPeer_port (port : (getMacPeer table now mac).1.inet_port ≠ 0) :
    ∃ key peerInfo, table.lookup key = some peerInfo := by
  cases hit : table.lookup mac with
  | some peerInfo => exact ⟨mac, peerInfo, hit⟩
  | none =>
    cases broadcast : table.lookup MAC_BROADCAST with
    | some uplink => exact ⟨MAC_BROADCAST, uplink, broadcast⟩
    | none => simp [getMacPeer, hit, broadcast, SockAddr.inet_port] at port

theorem getMacPeer_found {peerInfo : MacPeer} (found : table.lookup mac = some peerInfo) :
    getMacPeer table now mac = (peerInfo.sock, true, table) := by
  simp [getMacPeer, found]

theorem lookup_runRemoval_ne {task : RemovalTask} (different : other ≠ task.mac) :
    (runRemoval table task).lookup other = table.lookup other := by
  unfold runRemoval
  split
  · exact AList.lookup_erase_ne different
  · rfl

theorem runRemoval_of_due {task : RemovalTask} (due : task.due = true) :
    runRemoval table task = removePeer table task.mac := by
  simp [runRemoval, due]

theorem runRemoval_of_not_due {task : RemovalTask} (idle : task.due = false) :
    runRemoval table task = table := by
  simp [runRemoval, idle]

theorem lookup_runRemoval_broadcast {task : RemovalTask} :
    (runRemoval table task).lookup MAC_BROADCAST = table.lookup MAC_BROADCAST := by
  by_cases broadcast : MAC_BROADCAST = task.mac
  · rw [runRemoval_of_not_due]
    simp [RemovalTask.due, ← broadcast]
  · exact lookup_runRemoval_ne broadcast

theorem lookup_runRemoval {task : RemovalTask} {peerInfo : MacPeer}
    (found : (runRemoval table task).lookup mac = some peerInfo) :
    table.lookup mac = some peerInfo := by
  by_cases same : mac = task.mac
  · subst mac
    cases due : task.due with
    | true => simp [runRemoval_of_due due, removePeer] at found
    | false => rwa [runRemoval_of_not_due due] at found
  · rwa [lookup_runRemoval_ne same] at found

end MacMap

end TalusVSwitch
