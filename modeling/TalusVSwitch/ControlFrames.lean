import TalusVSwitch.PeerList

namespace TalusVSwitch

theorem Buffer.startsWith_append (front pattern rest behind : Bytes) :
    Buffer.startsWith ⟨front ++ (pattern ++ rest), behind⟩ front.length pattern = true := by
  induction pattern generalizing front with
  | nil => rfl
  | cons char others ih =>
    have here : Buffer.byte ⟨front ++ (char :: others ++ rest), behind⟩ front.length = char := by
      rw [Buffer.byte_of_lt (by simp [Buffer.size])]
      simp [List.getD_eq_getElem?_getD]
    have later := ih (front ++ [char])
    rw [Buffer.startsWith, here, beq_self_eq_true, Bool.true_and]
    simpa using later

/-- A frame with a destination, the local MAC as its source, and whatever follows. -/
def Framed (config : Config) (payload : Bytes) : Prop :=
  ∃ dest rest : Bytes, dest.length = 6 ∧ payload = dest ++ (macBytes config.macLocal ++ rest)

theorem Framed.length_le {config : Config} {payload : Bytes} (framed : Framed config payload) :
    12 ≤ payload.length := by
  obtain ⟨dest, rest, six, rfl⟩ := framed
  simp only [List.length_append, length_macBytes, six]
  omega

namespace VSCtrlHelper

/-- A frame with the command prefix behind its addresses, which the receiving node takes
for a command and hands to the handler of one, whatever lies in memory behind it. -/
structure Dispatched (config : Config) (command : Command) (payload : Bytes) : Prop where
  prefixed : ∃ dest rest : Bytes, dest.length = 6 ∧
    payload = dest ++ (macBytes config.macLocal ++ (TVS_CMD_PREFIX ++ rest))
  classified : ∀ behind ttl,
    (Transport.classify ⟨payload, behind⟩ ttl).command = some ⟨payload, behind⟩
  handled : ∀ behind, commandOf ⟨payload, behind⟩ = some command

theorem Dispatched.framed {config : Config} {command : Command} {payload : Bytes}
    (dispatched : Dispatched config command payload) : Framed config payload := by
  obtain ⟨dest, rest, six, whole⟩ := dispatched.prefixed
  exact ⟨dest, _, six, whole⟩

theorem Command.word_plain (command : Command) :
    TVS_CMD_PREFIX <+: command.word ∧ 44 ∉ command.word ∧ ∀ byte ∈ command.word ++ [44], byte ≠ 0 := by
  cases command <;> decide +kernel

/-- The text of a command up to its first comma is its word. -/
theorem commandOf_header (config : Config) (command : Command) (body behind : Bytes) :
    commandOf ⟨header config command ++ body, behind⟩ = some command := by
  obtain ⟨⟨rest, begun⟩, absent, noNul⟩ := command.word_plain
  have comma : text "," = [44] := by decide
  have shown : Buffer.cString ⟨header config command ++ body, behind⟩ 12 =
      command.word ++ 44 :: (body ++ 0 :: behind).takeWhile (fun byte => byte != 0) := by
    have skipped : (header config command ++ body ++ 0 :: behind).drop 12 =
        command.word ++ [44] ++ (body ++ 0 :: behind) := by
      have twelve : (macBytes 0 ++ macBytes config.macLocal).length = 12 := by
        simp [length_macBytes]
      rw [← twelve]
      simp [header, comma]
    rw [Buffer.cString, skipped, List.takeWhile_append_of_pos (by simpa using noNul)]
    simp
  have nonempty : command.word ≠ [] := by cases command <;> decide
  rw [commandOf, shown, split_of_ne_nil (by simp), Pieces.pieces_append_cons,
    Pieces.pieces_of_notMem absent nonempty]
  show [Command.QueryPeers, .ReQueryPeers, .QueryPeerInfo, .ReQueryPeerInfo].find?
    (fun other => other.word == command.word) = some command
  cases command <;> decide

theorem dispatched_header (config : Config) (command : Command) (body : Bytes) :
    Dispatched config command (header config command ++ body) := by
  obtain ⟨⟨rest, begun⟩, _⟩ := command.word_plain
  have shape : header config command ++ body = macBytes 0 ++ (macBytes config.macLocal ++
      (TVS_CMD_PREFIX ++ (rest ++ text "," ++ body))) := by
    simp [header, ← begun]
  refine ⟨⟨macBytes 0, _, length_macBytes 0, shape⟩, ?_, commandOf_header config command body⟩
  intro behind ttl
  have found : Buffer.isTvsCmd ⟨header config command ++ body, behind⟩ = true := by
    rw [shape, ← List.append_assoc, Buffer.isTvsCmd]
    exact Buffer.startsWith_append (macBytes 0 ++ macBytes config.macLocal) TVS_CMD_PREFIX _ behind
  simp [Transport.classify, found]

/-- Entries whose items take more than the header leaves of a thousand bytes, but not
without the last one. -/
structure FillsResponse (inet_ntoa : SockAddr → Bytes) (run : List MacEntry) : Prop where
  exceeds : 971 < (run.flatMap (peerStr inet_ntoa)).length
  fits : ∀ front back, run = front ++ back → back ≠ [] →
    (front.flatMap (peerStr inet_ntoa)).length ≤ 971

variable {inet_ntoa : SockAddr → Bytes} {config : Config}

theorem full_iff (chunk : List MacEntry) :
    full inet_ntoa config chunk = true ↔ 971 < (chunk.flatMap (peerStr inet_ntoa)).length := by
  have word : (Command.word .ReQueryPeers ++ text ",").length = 17 := by decide
  have begun : (header config .ReQueryPeers).length = 29 := by
    simp only [header, List.length_append, length_macBytes] at word ⊢
    omega
  rw [full, decide_eq_true_iff, response]
  by_cases empty : chunk = []
  · simp [empty]
  · rw [if_neg (by simpa using empty), List.length_append, begun]
    omega

theorem filled_iff (run : List MacEntry) :
    Packing.Filled (full inet_ntoa config) run ↔ FillsResponse inet_ntoa run := by
  have room (front : List MacEntry) : full inet_ntoa config front = false ↔
      (front.flatMap (peerStr inet_ntoa)).length ≤ 971 := by
    rw [← Bool.not_eq_true, full_iff, not_lt]
  simp only [Packing.Filled, Packing.Fits, full_iff, room]
  constructor
  · rintro ⟨exceeds, fits⟩
    exact ⟨exceeds, fits⟩
  · rintro ⟨exceeds, fits⟩
    exact ⟨exceeds, fits⟩

theorem dispatched_response {chunk : List MacEntry} (more : chunk ≠ []) :
    Dispatched config .ReQueryPeers (response inet_ntoa config chunk) := by
  rw [response, if_neg (by simpa using more)]
  exact dispatched_header config .ReQueryPeers _

/-- Every response is well-formed exactly when the listed entries cannot be cut into runs
that each fill a response. -/
theorem responses_dispatched_iff (order : List MacEntry) (peer : SockAddr) (ttl : UInt8) :
    (∀ send ∈ OnQueryPeers inet_ntoa config order peer ttl,
        Dispatched config .ReQueryPeers send.buf) ↔
      ¬ ∃ runs : List (List MacEntry),
        runs.flatten = order.filter listed ∧ ∀ run ∈ runs, FillsResponse inet_ntoa run := by
  have packed := @Packing.pack_exhausted _ (full inet_ntoa config) full_nil (order.filter listed)
  simp only [filled_iff] at packed
  rw [onQueryPeers_eq, List.forall_mem_map, ← packed]
  constructor
  · intro dispatched exhausted
    have short := (dispatched [] exhausted).framed.length_le
    simp [response] at short
  · intro more chunk member
    exact dispatched_response fun empty => more (empty ▸ member)

/-- The keep-alives, questions and answers of a node are well-formed and reach the handler
they are for exactly when the listed entries of the table, in the order they are
enumerated, cannot be cut into runs that each fill a response. Where no entry is listed,
the empty list of runs is such a cut. -/
theorem emissions_dispatched_iff (inet_ntoa : SockAddr → Bytes) (config : Config)
    (order : List MacEntry) :
    ((∀ mac addr ttl, Framed config (sendKeepData config mac addr ttl).buf) ∧
      Dispatched config .QueryPeers (SendQueryPeers config).buf ∧
      Dispatched config .QueryPeerInfo (SendQueryPeerInfo config).buf ∧
      (∀ peer, ∀ send ∈ OnQueryPeerInfo config peer, Dispatched config .ReQueryPeerInfo send.buf) ∧
      ∀ peer ttl, ∀ send ∈ OnQueryPeers inet_ntoa config order peer ttl,
        Dispatched config .ReQueryPeers send.buf) ↔
    ¬ ∃ runs : List (List MacEntry),
      runs.flatten = order.filter listed ∧ ∀ run ∈ runs, FillsResponse inet_ntoa run := by
  have kept (mac : Mac) (addr : SockAddr) (ttl : UInt8) :
      Framed config (sendKeepData config mac addr ttl).buf :=
    ⟨macBytes mac, [], length_macBytes mac, by rw [List.append_nil]; rfl⟩
  have asked (command : Command) : Dispatched config command (header config command) := by
    have whole := dispatched_header config command []
    rwa [List.append_nil] at whole
  have told : ∀ peer, ∀ send ∈ OnQueryPeerInfo config peer,
      Dispatched config .ReQueryPeerInfo send.buf := by
    intro peer send sent
    rw [OnQueryPeerInfo, List.mem_singleton] at sent
    subst sent
    simp only [List.append_assoc]
    exact dispatched_header config .ReQueryPeerInfo _
  constructor
  · rintro ⟨_, _, _, _, answered⟩
    exact (responses_dispatched_iff order .unspec 0).mp (answered .unspec 0)
  · intro uncut
    exact ⟨kept, asked .QueryPeers, asked .QueryPeerInfo, told,
      fun peer ttl => (responses_dispatched_iff order peer ttl).mpr uncut⟩

/-- A core that has heard of nobody answers with an empty payload. -/
theorem empty_response_undispatched :
    ¬ ∀ send ∈ OnQueryPeers (SockUtil.inet_ntoa .unabridged) ⟨0x0400000000020000, 4, .inet 0 0, []⟩
        (Enumeration.stored.order
          ((∅ : MacMap).addMacPeer 0 MAC_BROADCAST (.inet 0 0) 4)) (.inet 0x0A000009 9001) 4,
      12 ≤ send.buf.length ∧ Dispatched ⟨0x0400000000020000, 4, .inet 0 0, []⟩ .ReQueryPeers send.buf := by
  intro formed
  have long := (formed ⟨[], .inet 0x0A000009 9001, 4⟩ (by decide +kernel)).1
  exact absurd long (by decide)

end VSCtrlHelper

end TalusVSwitch
