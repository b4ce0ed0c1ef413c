import TalusVSwitch.PeerList

namespace TalusVSwitch

/-- The characters of a dotted address. -/
def addressChar (char : UInt8) : Bool := char == 46 || (digitOf 10 char).isSome

/-- A dotted IPv4 address: four groups of digits. -/
def IsDotted (addr : Bytes) : Prop :=
  ∃ one two three four : Bytes, addr = [46].intercalate [one, two, three, four] ∧
    ∀ group ∈ [one, two, three, four], group ≠ [] ∧ ∀ char ∈ group, (digitOf 10 char).isSome

theorem IsDotted.plain {addr : Bytes} (dotted : IsDotted addr) :
    44 ∉ addr ∧ 7 ≤ addr.countP addressChar := by
  obtain ⟨one, two, three, four, rfl, digits⟩ := dotted
  constructor
  · apply Pieces.notMem_intercalate _ (by decide)
    intro group member comma
    exact digit_ne (by decide) ((digits group member).2 44 comma) (by decide) rfl
  · have counted (group : Bytes) (member : group ∈ [one, two, three, four]) :
        1 ≤ group.countP addressChar := by
      obtain ⟨nonempty, plain⟩ := digits group member
      rw [List.countP_eq_length.mpr fun char inside => by simp [addressChar, plain char inside]]
      exact List.length_pos_iff_ne_nil.mpr nonempty
    have dot : addressChar 46 = true := by decide
    have counted1 := counted one (by simp)
    have counted2 := counted two (by simp)
    have counted3 := counted three (by simp)
    have counted4 := counted four (by simp)
    simp only [List.intercalate_cons_cons, List.intercalate_singleton, List.countP_append,
      List.countP_cons, List.countP_nil, dot, if_true]
    omega

namespace VSCtrlHelper

/-- The header up to its comma. -/
def leading (config : Config) (command : Command) : Bytes :=
  macBytes 0 ++ macBytes config.macLocal ++ command.word

variable {config : Config} {command : Command}

theorem header_eq : header config command = leading config command ++ [44] := by
  have comma : text "," = [44] := by decide
  rw [header, leading, comma]

theorem countP_leading : (leading config command).countP addressChar ≤ 6 := by
  have zeros : (macBytes 0).countP addressChar = 0 := by decide
  have word : command.word.countP addressChar = 0 := by cases command <;> decide
  have mac := @List.countP_le_length _ addressChar (macBytes config.macLocal)
  rw [length_macBytes] at mac
  simp only [leading, List.countP_append, zeros, word]
  omega

/-- What is before the first comma of the header is one piece, unless a comma in the MAC
cuts it. -/
theorem pieces_leading (config : Config) (command : Command) :
    ∃ first rest, Pieces.pieces 44 (leading config command) = first :: rest ∧
      (rest = [] ↔ 44 ∉ macBytes config.macLocal) := by
  have words : 44 ∉ command.word ∧ 84 ∈ command.word := by cases command <;> decide
  have zeros : 44 ∉ macBytes 0 ∧ 0 ∈ macBytes 0 := by decide
  by_cases present : 44 ∈ macBytes config.macLocal
  · obtain ⟨front, back, cut⟩ := List.append_of_mem present
    have shape : leading config command = macBytes 0 ++ front ++ 44 :: (back ++ command.word) := by
      simp [leading, cut]
    have before := @Pieces.pieces_ne_nil _ _ 44 _ 0 (macBytes 0 ++ front)
      (List.mem_append_left _ zeros.2) (by decide)
    have behind := @Pieces.pieces_ne_nil _ _ 44 _ 84 (back ++ command.word)
      (List.mem_append_right _ words.2) (by decide)
    obtain ⟨first, rest, opened⟩ := List.exists_cons_of_ne_nil before
    refine ⟨first, rest ++ Pieces.pieces 44 (back ++ command.word), ?_, ?_⟩
    · rw [shape, Pieces.pieces_append_cons, opened, List.cons_append]
    · simp [behind, present]
  · refine ⟨leading config command, [], ?_, by simp [present]⟩
    apply Pieces.pieces_of_notMem
    · simp [leading, zeros.1, words.1, present]
    · have some : 84 ∈ leading config command := List.mem_append_right _ words.2
      exact List.ne_nil_of_mem some

/-- The handlers see the pieces of the header before those of the text. -/
theorem split_header (body : Bytes) :
    split (header config command ++ body) 44 =
      Pieces.pieces 44 (leading config command) ++ Pieces.pieces 44 body := by
  have shape : header config command ++ body = leading config command ++ 44 :: body := by
    simp [header_eq]
  rw [split_of_ne_nil (by simp [header_ne_nil]), shape, Pieces.pieces_append_cons]

/-- The name a node tells is stored exactly when it has an address text and no comma
among the bytes of its MAC. -/
theorem info_stored_iff {peer : SockAddr} (key : config.macLocal.toNat % 65536 = 0)
    (held : config.localIp = [] ∨ IsDotted config.localIp) :
    (∀ send ∈ OnQueryPeerInfo config peer,
        OnQueryPeerInfoResponse send.buf = .stored config.localIp config.macLocal) ↔
      config.localIp ≠ [] ∧ 44 ∉ macBytes config.macLocal := by
  obtain ⟨first, rest, opened, whole⟩ := pieces_leading config .ReQueryPeerInfo
  have comma : text "," = [44] := by decide
  have mac : Pieces.pieces 44 (uint64ToMacStr config.macLocal) = [uint64ToMacStr config.macLocal] :=
    Pieces.pieces_of_notMem (uint64ToMacStr_notMem _ (by decide) (by decide))
      (uint64ToMacStr_ne_nil _)
  have fields : split (header config .ReQueryPeerInfo ++ config.localIp ++ text "," ++
      uint64ToMacStr config.macLocal) 44 =
      first :: (rest ++ (Pieces.pieces 44 config.localIp ++ [uint64ToMacStr config.macLocal])) := by
    rw [comma, List.append_assoc, List.append_assoc, split_header, opened, List.singleton_append,
      Pieces.pieces_append_cons, mac, List.cons_append]
  simp only [OnQueryPeerInfo, List.mem_singleton, forall_eq, info_eq_stored, fields,
    List.cons.injEq]
  constructor
  · rintro ⟨_, third, more, ⟨_, parts⟩, _⟩
    cases rest with
    | nil =>
      refine ⟨?_, whole.mp rfl⟩
      intro empty
      simp [empty] at parts
    | cons second others =>
      -- the second piece of the header has too few characters for an address
      have told : second = config.localIp := (List.cons.inj parts).1
      have piece : second ∈ Pieces.pieces 44 (leading config .ReQueryPeerInfo) := by
        rw [opened]
        exact List.mem_cons_of_mem _ (List.mem_cons_self ..)
      obtain ⟨nonempty, _, inside⟩ := Pieces.mem_pieces piece
      rw [told] at nonempty inside
      have dots := (held.resolve_left nonempty).plain.2
      have few := (inside.sublist.countP_le : config.localIp.countP addressChar ≤ _).trans countP_leading
      omega
  · rintro ⟨named, noComma⟩
    have dotted := held.resolve_left named
    refine ⟨first, uint64ToMacStr config.macLocal, [], ⟨rfl, ?_⟩, macToUint64_uint64ToMacStr key⟩
    rw [whole.mpr noComma, Pieces.pieces_of_notMem dotted.plain.1 named]
    rfl

theorem itemsOf_response {inet_ntoa : SockAddr → Bytes} (noComma : 44 ∉ macBytes config.macLocal)
    (plain : ∀ addr, 44 ∉ inet_ntoa addr) (chunk : List MacEntry) :
    itemsOf (response inet_ntoa config chunk) = chunk.map (itemText inet_ntoa) := by
  by_cases empty : chunk = []
  · subst empty
    rfl
  · obtain ⟨first, rest, opened, whole⟩ := pieces_leading config .ReQueryPeers
    have items := split_items empty (fun entry _ => plain entry.2.sock)
    rw [split_of_ne_nil (by
      obtain ⟨entry, others, rfl⟩ := List.exists_cons_of_ne_nil empty
      simp [peerStr_eq])] at items
    rw [itemsOf, response, if_neg (by simpa using empty), split_header, opened, whole.mpr noComma,
      items]
    rfl

/-- For a node of any hardware address, with a dotted address text or none: its answer
about itself is stored as it was meant, and of each of its peer lists just the items it
wrote are examined, exactly when it has an address text and no comma in its MAC. -/
theorem responses_read_back_iff {inet : InetText} (documented : inet.Documented) {config : Config}
    {hwaddr : Bytes} (six : hwaddr.length = 6) (hardware : config.macLocal = macOfBytes hwaddr)
    (held : config.localIp = [] ∨ IsDotted config.localIp) :
    ((∀ peer, ∀ send ∈ OnQueryPeerInfo config peer,
        OnQueryPeerInfoResponse send.buf = .stored config.localIp config.macLocal) ∧
      ∀ order peer ttl, ∃ chunks : List (List MacEntry), chunks.flatten = order.filter listed ∧
        List.Forall₂
          (fun send chunk => itemsOf send.buf = chunk.map (itemText (SockUtil.inet_ntoa inet)))
          (OnQueryPeers (SockUtil.inet_ntoa inet) config order peer ttl) chunks) ↔
    (config.localIp ≠ [] ∧ 44 ∉ hwaddr) := by
  have bytes : macBytes config.macLocal = hwaddr := by rw [hardware, macBytes_macOfBytes six]
  have key : config.macLocal.toNat % 65536 = 0 := by
    rw [hardware, macOfBytes_toNat six]
    exact Nat.mul_mod_right _ _
  rw [← bytes]
  constructor
  · rintro ⟨stored, _⟩
    exact (info_stored_iff key held).mp (stored .unspec)
  · intro met
    refine ⟨fun peer => (info_stored_iff key held).mpr met, fun order peer ttl => ?_⟩
    refine ⟨Packing.pack (full (SockUtil.inet_ntoa inet) config) [] (order.filter listed),
      by rw [Packing.pack_flatten, List.nil_append], ?_⟩
    rw [onQueryPeers_eq, List.forall₂_map_left_iff, List.forall₂_same]
    intro chunk _
    exact itemsOf_response met.2 (SockUtil.inet_ntoa_noComma documented) chunk

/-- Without an address text there is no third part; a comma in the MAC puts a piece of
the header in the second one's place. -/
theorem response_misread :
    (¬ ∀ send ∈ OnQueryPeerInfo ⟨macOfBytes [2, 0, 0, 0, 0, 4], 8, .inet 0 0, []⟩ (.inet 1 9001),
      OnQueryPeerInfoResponse send.buf = .stored [] (macOfBytes [2, 0, 0, 0, 0, 4])) ∧
    ¬ ∀ send ∈ OnQueryPeerInfo ⟨macOfBytes [2, 44, 0, 0, 0, 4], 8, .inet 0 0, text "10.0.0.1"⟩
        (.inet 1 9001),
      OnQueryPeerInfoResponse send.buf =
        .stored (text "10.0.0.1") (macOfBytes [2, 44, 0, 0, 0, 4]) := by
  decide +kernel

theorem responses_read_back_dotted :
    ((∀ peer, ∀ send ∈ OnQueryPeerInfo
          ⟨macOfBytes [2, 0, 0, 0, 0, 4], 8, .inet 0 0, text "10.0.0.1"⟩ peer,
        OnQueryPeerInfoResponse send.buf =
          .stored (text "10.0.0.1") (macOfBytes [2, 0, 0, 0, 0, 4])) ∧
      ∀ order peer ttl, ∃ chunks : List (List MacEntry), chunks.flatten = order.filter listed ∧
        List.Forall₂
          (fun send chunk =>
            itemsOf send.buf = chunk.map (itemText (SockUtil.inet_ntoa .unabridged)))
          (OnQueryPeers (SockUtil.inet_ntoa .unabridged)
            ⟨macOfBytes [2, 0, 0, 0, 0, 4], 8, .inet 0 0, text "10.0.0.1"⟩ order peer ttl) chunks) :=
  (responses_read_back_iff unabridged_documented (by decide) rfl
    (.inr ⟨text "10", text "0", text "0", text "1", by decide, by decide +kernel⟩)).mpr (by decide)

end VSCtrlHelper

end TalusVSwitch
