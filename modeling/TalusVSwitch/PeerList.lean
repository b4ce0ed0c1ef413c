import TalusVSwitch.Library.Packing
import TalusVSwitch.PeerResponse

namespace TalusVSwitch

namespace VSCtrlHelper

/-- The entries a peer list tells of. -/
def listed (entry : MacEntry) : Bool := entry.1 != 0 && entry.1 != MAC_BROADCAST

variable (inet_ntoa : SockAddr → Bytes) (config : Config)

/-- The response with some entries in it. -/
def response (chunk : List MacEntry) : Bytes :=
  if chunk.isEmpty then []
  else header config .ReQueryPeers ++ chunk.flatMap (peerStr inet_ntoa)

/-- Whether a response is sent before the next entry. -/
def full (chunk : List MacEntry) : Bool := 1000 < (response inet_ntoa config chunk).length

variable {inet_ntoa config}

theorem header_ne_nil (config : Config) (command : Command) : header config command ≠ [] := by
  rw [← List.length_pos_iff_ne_nil]
  simp only [header, List.length_append, length_macBytes]
  omega

theorem isEmpty_response (chunk : List MacEntry) :
    (response inet_ntoa config chunk).isEmpty = chunk.isEmpty := by
  apply Bool.eq_iff_iff.mpr
  cases chunk <;> simp [response, header_ne_nil]

theorem response_concat (begun : List MacEntry) (entry : MacEntry) :
    (if (response inet_ntoa config begun).isEmpty then header config .ReQueryPeers
      else response inet_ntoa config begun) ++ peerStr inet_ntoa entry =
      response inet_ntoa config (begun ++ [entry]) := by
  rw [isEmpty_response]
  cases begun <;> simp [response]

theorem peerLists_eq_pack (begun order : List MacEntry) :
    peerLists inet_ntoa config (response inet_ntoa config begun) order =
      (Packing.pack (full inet_ntoa config) begun (order.filter listed)).map
        (response inet_ntoa config) := by
  induction order generalizing begun with
  | nil => rfl
  | cons entry rest ih =>
    rw [peerLists]
    by_cases skipped : (entry.1 == 0 || entry.1 == MAC_BROADCAST) = true
    · have unlisted : listed entry = false := by simpa [listed, or_iff_not_imp_left] using skipped
      rw [if_pos skipped, List.filter_cons_of_neg (by simp [unlisted]), ih]
    · have told : listed entry = true := by simpa [listed] using skipped
      rw [if_neg skipped, List.filter_cons_of_pos told, Packing.pack]
      simp only [response_concat]
      by_cases long : 1000 < (response inet_ntoa config (begun ++ [entry])).length
      · rw [if_pos long, if_pos (by simpa [full] using long), List.map_cons]
        exact congrArg _ (ih [])
      · rw [if_neg long, if_neg (by simpa [full] using long), ih]

/-- What `OnQueryPeers` sends, an empty last response included. -/
theorem onQueryPeers_eq (order : List MacEntry) (peer : SockAddr) (ttl : UInt8) :
    OnQueryPeers inet_ntoa config order peer ttl =
      (Packing.pack (full inet_ntoa config) [] (order.filter listed)).map
        (fun chunk => ⟨response inet_ntoa config chunk, peer, ttl⟩) := by
  have packed : peerLists inet_ntoa config [] order = _ := peerLists_eq_pack [] order
  rw [OnQueryPeers, packed, List.map_map]
  rfl

/-- An item as `OnQueryPeersResponse` reads it: a MAC and an address. -/
def decodeItem (inet : InetText) (item : Bytes) : Option (Mac × SockAddr) :=
  match split item 45 with
  | [macText, addr, port] => do
    let mac ← macToUint64 macText
    let peer ← SockUtil.make_sockaddr inet (cStr addr) (toUInt16 (atoi (cStr port)))
    some (mac, peer)
  | _ => none

/-- An entry's text without the comma. -/
def itemText (inet_ntoa : SockAddr → Bytes) (entry : MacEntry) : Bytes :=
  [45].intercalate [uint64ToMacStr entry.1, inet_ntoa entry.2.sock,
    text (toString entry.2.sock.inet_port.toNat)]

theorem peerStr_eq (entry : MacEntry) : peerStr inet_ntoa entry = itemText inet_ntoa entry ++ [44] := by
  have comma : text "," = [44] := by decide
  have dash : text "-" = [45] := by decide
  simp [peerStr, itemText, comma, dash]

theorem split_itemText {entry : MacEntry} (plain : PlainText (inet_ntoa entry.2.sock)) :
    split (itemText inet_ntoa entry) 45 = [uint64ToMacStr entry.1, inet_ntoa entry.2.sock,
      text (toString entry.2.sock.inet_port.toNat)] := by
  have apart : Pieces.pieces 45 (itemText inet_ntoa entry) = [uint64ToMacStr entry.1,
      inet_ntoa entry.2.sock, text (toString entry.2.sock.inet_port.toNat)] := by
    apply Pieces.pieces_intercalate
    simp only [List.forall_mem_cons, text_toString]
    exact ⟨⟨uint64ToMacStr_ne_nil _, uint64ToMacStr_notMem _ (by decide) (by decide)⟩,
      ⟨plain.nonempty, plain.noDash⟩,
      ⟨numeralText_ne_nil _ _, numeralText_notMem (by decide) (by decide) _ (by decide)⟩,
      List.forall_mem_nil _⟩
  have written : itemText inet_ntoa entry ≠ [] := by
    intro empty
    rw [empty, Pieces.pieces_nil] at apart
    cases apart
  rw [split_of_ne_nil written, apart]

theorem itemText_apart {entry : MacEntry} (noComma : 44 ∉ inet_ntoa entry.2.sock) :
    itemText inet_ntoa entry ≠ [] ∧ 44 ∉ itemText inet_ntoa entry := by
  constructor
  · simp [itemText, uint64ToMacStr_ne_nil]
  · apply Pieces.notMem_intercalate _ (by decide)
    simp only [List.forall_mem_cons, text_toString]
    exact ⟨uint64ToMacStr_notMem _ (by decide) (by decide), noComma,
      numeralText_notMem (by decide) (by decide) _ (by decide), List.forall_mem_nil _⟩

/-- A peer list that tells of some entries, each in one whole item behind the one header:
whoever reads its items finds the key of each entry and an address equal to the stored
one. -/
structure Carries (inet : InetText) (config : Config) (payload : Bytes) (chunk : List MacEntry) :
    Prop where
  whole : payload = header config .ReQueryPeers ++ chunk.flatMap (peerStr (SockUtil.inet_ntoa inet))
  short : ∃ front last, chunk = front ++ [last] ∧
    payload.length ≤ 1000 + (peerStr (SockUtil.inet_ntoa inet) last).length
  decoded : List.Forall₂
    (fun item entry => ∃ addr, decodeItem inet item = some (entry.1, addr) ∧
      compareSockAddr addr entry.2.sock = true)
    (split (payload.drop (header config .ReQueryPeers).length) 44) chunk

theorem split_items {chunk : List MacEntry} (more : chunk ≠ [])
    (noComma : ∀ entry ∈ chunk, 44 ∉ inet_ntoa entry.2.sock) :
    split (chunk.flatMap (peerStr inet_ntoa)) 44 = chunk.map (itemText inet_ntoa) := by
  have apart := @Pieces.pieces_flatMap _ _ 44 _ (chunk.map (itemText inet_ntoa)) (by
    intro item member
    obtain ⟨entry, inside, rfl⟩ := List.mem_map.mp member
    exact itemText_apart (noComma entry inside)) []
  have shape : chunk.flatMap (peerStr inet_ntoa) =
      (chunk.map (itemText inet_ntoa)).flatMap (fun part => part ++ [44]) ++ [] := by
    simp only [List.flatMap_map, List.append_nil, ← peerStr_eq]
  have written : chunk.flatMap (peerStr inet_ntoa) ≠ [] := by
    obtain ⟨entry, rest, rfl⟩ := List.exists_cons_of_ne_nil more
    simp [peerStr_eq]
  rw [split_of_ne_nil written, shape, apart, Pieces.pieces_nil, List.append_nil]

theorem full_nil : full inet_ntoa config [] = false := by
  simp [full, response]

end VSCtrlHelper

end TalusVSwitch
