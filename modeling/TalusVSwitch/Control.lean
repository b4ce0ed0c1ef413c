import TalusVSwitch.MacText
import TalusVSwitch.VSwitch

namespace TalusVSwitch

/-- The C string at `buf->data() + offset`. -/
def Buffer.cString (buf : Buffer) (offset : Nat) : Bytes :=
  ((buf.bytes ++ 0 :: buf.behind).drop offset).takeWhile (fun byte => byte != 0)

/-- `LinkKeeper::sendKeepData` -/
def sendKeepData (config : Config) (mac : Mac) (addr : SockAddr) (ttl : UInt8) : Send :=
  ⟨macBytes mac ++ macBytes config.macLocal, addr, ttl⟩

/-- The keep-alives of one round of `LinkKeeper::start`. -/
def keepLinks (config : Config) (order : List MacEntry) : List Send :=
  (order.filter (fun entry => entry.2.sock.inet_port != 0)).map
    (fun entry => sendKeepData config entry.1 entry.2.sock 0)

namespace VSCtrlHelper

/-- The commands `handleCmd` dispatches on. -/
inductive Command where
  | QueryPeers
  | ReQueryPeers
  | QueryPeerInfo
  | ReQueryPeerInfo
deriving DecidableEq, Repr

def Command.word : Command → Bytes
  | QueryPeers => TVS_CMD_PREFIX ++ text "QueryPeers"
  | ReQueryPeers => TVS_CMD_PREFIX ++ text "ReQueryPeers"
  | QueryPeerInfo => TVS_CMD_PREFIX ++ text "QueryPeerInfo"
  | ReQueryPeerInfo => TVS_CMD_PREFIX ++ text "ReQueryPeerInfo"

/-- What every command begins with: destination zero, the local MAC, its word. -/
def header (config : Config) (command : Command) : Bytes :=
  macBytes 0 ++ macBytes config.macLocal ++ command.word ++ text ","

/-- `SendQueryPeers` -/
def SendQueryPeers (config : Config) : Send :=
  ⟨header config .QueryPeers, config.corePeer, config.sendTtl⟩

/-- `SendQueryPeerInfo` -/
def SendQueryPeerInfo (config : Config) : Send :=
  ⟨header config .QueryPeerInfo, config.corePeer, config.sendTtl⟩

variable (inet_ntoa : SockAddr → Bytes) (config : Config)

/-- One entry in a peer list. -/
def peerStr (entry : MacEntry) : Bytes :=
  uint64ToMacStr entry.1 ++ text "-" ++ inet_ntoa entry.2.sock ++ text "-" ++
    text (toString entry.2.sock.inet_port.toNat) ++ text ","

/-- The payloads `OnQueryPeers` sends, from the response begun so far. -/
def peerLists (resp : Bytes) : List MacEntry → List Bytes
  | [] => [resp]
  | entry :: rest =>
    if entry.1 == 0 || entry.1 == MAC_BROADCAST then peerLists resp rest
    else
      let resp := (if resp.isEmpty then header config .ReQueryPeers else resp) ++
        peerStr inet_ntoa entry
      -- an over-long list is sent at once and another one begun
      if 1000 < resp.length then resp :: peerLists [] rest else peerLists resp rest

/-- `OnQueryPeers`. The last response is sent also when there is nothing in it. -/
def OnQueryPeers (order : List MacEntry) (peer : SockAddr) (ttl : UInt8) : List Send :=
  (peerLists inet_ntoa config [] order).map (fun resp => ⟨resp, peer, ttl⟩)

/-- `OnQueryPeerInfo` -/
def OnQueryPeerInfo (peer : SockAddr) : List Send :=
  [⟨header config .ReQueryPeerInfo ++ config.localIp ++ text "," ++ uint64ToMacStr config.macLocal,
    peer, config.sendTtl⟩]

/-- The handler a frame is dispatched to, by its text up to the first comma. -/
def commandOf (buf : Buffer) : Option Command :=
  match split (buf.cString 12) 44 with
  | [] => none
  | word :: _ =>
    [Command.QueryPeers, .ReQueryPeers, .QueryPeerInfo, .ReQueryPeerInfo].find?
      (fun command => command.word == word)

/-- What `handleCmd` sends at once. The handlers of the two responses send nothing
themselves: one posts probes, the other stores the core's name. -/
def handleCmd (order : List MacEntry) (buf : Buffer) (peer : SockAddr) (ttl : UInt8) : List Send :=
  match commandOf buf with
  | some .QueryPeers => OnQueryPeers inet_ntoa config order peer ttl
  | some .QueryPeerInfo => OnQueryPeerInfo config peer
  | some .ReQueryPeers | some .ReQueryPeerInfo | none => []

variable {inet_ntoa config}

/-- A peer list is empty or begins with the header. -/
theorem peerLists_header {resp payload : Bytes} {order : List MacEntry}
    (begun : resp = [] ∨ header config .ReQueryPeers <+: resp)
    (sent : payload ∈ peerLists inet_ntoa config resp order) :
    payload = [] ∨ header config .ReQueryPeers <+: payload := by
  induction order generalizing resp with
  | nil =>
    rw [peerLists, List.mem_singleton] at sent
    rwa [sent]
  | cons entry rest ih =>
    rw [peerLists] at sent
    split at sent
    · exact ih begun sent
    · have longer : header config .ReQueryPeers <+:
          (if resp.isEmpty then header config .ReQueryPeers else resp) ++ peerStr inet_ntoa entry := by
        rcases begun with empty | started
        · rw [empty]
          exact List.prefix_append _ _
        · split
          · exact List.prefix_append _ _
          · exact started.trans (List.prefix_append _ _)
      generalize (if resp.isEmpty then header config .ReQueryPeers else resp) ++
        peerStr inet_ntoa entry = longerResp at longer sent
      dsimp only at sent
      split at sent
      · rcases List.mem_cons.mp sent with same | later
        · rw [same]
          exact .inr longer
        · exact ih (.inl rfl) later
      · exact ih (.inr longer) sent

theorem zero_prefix_header (config : Config) (command : Command) :
    macBytes 0 <+: header config command := by
  simp only [header, List.append_assoc]
  exact List.prefix_append _ _

/-- A command is answered to where it came from, with the TTL it arrived with or that
of the node, by nothing or by a frame whose destination is zero. -/
theorem handleCmd_sends {order : List MacEntry} {buf : Buffer} {peer : SockAddr} {ttl : UInt8}
    {send : Send} (sent : send ∈ handleCmd inet_ntoa config order buf peer ttl) :
    send.addr = peer ∧ (send.ttl = ttl ∨ send.ttl = config.sendTtl) ∧
      (send.buf = [] ∨ macBytes 0 <+: send.buf) := by
  unfold handleCmd at sent
  split at sent
  · obtain ⟨resp, listed, rfl⟩ := List.mem_map.mp sent
    refine ⟨rfl, .inl rfl, ?_⟩
    rcases peerLists_header (.inl rfl) listed with empty | begun
    · exact .inl empty
    · exact .inr ((zero_prefix_header _ _).trans begun)
  · rw [OnQueryPeerInfo, List.mem_singleton] at sent
    subst sent
    refine ⟨rfl, .inr rfl, .inr ((zero_prefix_header config .ReQueryPeerInfo).trans ?_)⟩
    simp only [List.append_assoc]
    exact List.prefix_append _ _
  · cases sent
  · cases sent
  · cases sent

theorem dMac_of_zero_prefix {bytes behind : Bytes} (zero : macBytes 0 <+: bytes) :
    Buffer.dMac ⟨bytes, behind⟩ = 0 := by
  obtain ⟨rest, rfl⟩ := zero
  have zeros : macBytes 0 = List.replicate 6 0 := rfl
  rw [Buffer.dMac_eq_zero, zeros]
  intro index below
  have inside : index < (List.replicate 6 (0 : UInt8) ++ rest).length := by
    rw [List.length_append, List.length_replicate]
    omega
  rw [Buffer.byte_of_lt inside, List.getD_eq_getElem?_getD,
    List.getElem?_append_left (by rwa [List.length_replicate]), List.getElem?_replicate, if_pos below]
  rfl

end VSCtrlHelper

end TalusVSwitch
