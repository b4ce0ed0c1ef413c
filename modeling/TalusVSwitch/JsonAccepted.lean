import TalusVSwitch.JsonExchange

namespace TalusVSwitch.Json

theorem name_cases (name other : Bytes) : name < other ∨ name = other ∨ other < name := by
  by_cases before : name < other
  · exact .inl before
  · rcases List.le_iff_lt_or_eq.mp (List.not_lt.mp before) with less | same
    · exact .inr (.inr less)
    · exact .inr (.inl same.symm)

/-- A missing member is created at its place. -/
theorem names_resolveReference {members : Members} (name : Bytes)
    (names : members.Pairwise (fun member later => member.1 < later.1)) :
    (resolveReference members name).2.Pairwise (fun member later => member.1 < later.1) := by
  rw [resolveReference]
  cases found : members.lookup name with
  | some child => exact names
  | none =>
    have absent : ∀ member ∈ members, member.1 ≠ name := by
      intro member present same
      rw [List.lookup_eq_none_iff] at found
      have other := found member present
      rw [bne_iff_ne] at other
      exact other same.symm
    clear found
    dsimp only
    induction members with
    | nil => exact List.pairwise_singleton _ _
    | cons member rest ih =>
      have behind := List.pairwise_cons.mp names
      by_cases before : member.1 < name
      · rw [List.takeWhile_cons, List.dropWhile_cons]
        simp only [before, decide_true, if_true, List.cons_append]
        refine List.pairwise_cons.mpr ⟨fun other present => ?_, ih behind.2
          (fun later present => absent later (List.mem_cons_of_mem _ present))⟩
        rcases List.mem_append.mp present with front | back
        · exact behind.1 other ((List.takeWhile_sublist _).subset front)
        · rcases List.mem_cons.mp back with rfl | later
          · exact before
          · exact behind.1 other ((List.dropWhile_sublist _).subset later)
      · have after : name < member.1 := by
          rcases name_cases member.1 name with less | same | less
          · exact absurd less before
          · exact absurd same (absent member List.mem_cons_self)
          · exact less
        rw [List.takeWhile_cons, List.dropWhile_cons]
        simp only [before, decide_false, Bool.false_eq_true, if_false, List.nil_append]
        refine List.pairwise_cons.mpr ⟨fun other present => ?_, names⟩
        rcases List.mem_cons.mp present with rfl | later
        · exact after
        · exact List.lt_trans after (behind.1 other later)

theorem mem_resolveReference {members : Members} {name : Bytes} {member : Bytes × Node}
    (present : member ∈ (resolveReference members name).2) :
    member ∈ members ∨ member = (name, .nullValue) := by
  rw [resolveReference] at present
  cases found : members.lookup name with
  | some child =>
    rw [found] at present
    exact .inl present
  | none =>
    rw [found] at present
    rcases List.mem_append.mp present with front | back
    · exact .inl ((List.takeWhile_sublist _).subset front)
    · rcases List.mem_cons.mp back with new | later
      · exact .inr new
      · exact .inl ((List.dropWhile_sublist _).subset later)

theorem names_assign {members : Members} (name : Bytes) (child : Node)
    (names : members.Pairwise (fun member later => member.1 < later.1)) :
    (assign members name child).Pairwise (fun member later => member.1 < later.1) := by
  rw [assign, List.pairwise_map]
  exact names

theorem forall_assign {holds : Node → Prop} {members : Members} (all : ∀ member ∈ members,
    holds member.2) {name : Bytes} {child : Node} (new : holds child) :
    ∀ member ∈ assign (resolveReference members name).2 name child, holds member.2 := by
  intro member present
  obtain ⟨before, there, rfl⟩ := List.mem_map.mp present
  dsimp only
  split_ifs with same
  · exact new
  · rcases mem_resolveReference there with old | rfl
    · exact all before old
    · exact absurd (beq_self_eq_true name) same

namespace Reader

end Reader

namespace Reader

open FastWriter

/-! ### Numbers -/

/-- What a reader comes to: something off the text and a value that is as it should be, or
a failure that is no loop without end. -/
def Ends (holds : Read → Prop) (bytes : Bytes) : Except Failure (Read × Bytes) → Prop
  | .ok (value, rest) => rest.length < bytes.length ∧ holds value
  | .error failure => failure ≠ .exhausted

theorem Ends.later {holds : Read → Prop} {bytes behind : Bytes}
    {result : Except Failure (Read × Bytes)} (ends : Ends holds behind result)
    (less : behind.length < bytes.length) : Ends holds bytes result := by
  cases result with
  | error failure => exact ends
  | ok read => exact ⟨ends.1.trans less, ends.2⟩

/-- A value in the form that reading gives it. -/
structure Canonical (limit : Nat) (node : Node) : Prop where
  ordered : node.Ordered
  normal : node.normalise = node
  flat : node.levels ≤ limit

/-- The elements of an array, at all indices up to a count. -/
def Filled (limit count : Nat) (items : Items) : Prop :=
  ∃ child : Nat → Node,
    items = (List.range count).map (fun index => (UInt32.ofNat index, child index)) ∧
    ∀ index < count, Canonical limit (child index)

theorem Filled.append {limit count : Nat} {items : Items} (filled : Filled limit count items)
    {node : Node} (canonical : Canonical limit node) :
    Filled limit (count + 1) (items ++ [(UInt32.ofNat count, node)]) := by
  obtain ⟨child, rfl, each⟩ := filled
  refine ⟨fun index => if index = count then node else child index, ?_, fun index below => ?_⟩
  · rw [List.range_succ, List.map_append, List.map_singleton]
    simp only [if_true]
    congr 1
    apply List.map_congr_left
    intro index member
    rw [if_neg (Nat.ne_of_lt (List.mem_range.mp member))]
  · dsimp only
    split_ifs with last
    · exact canonical
    · exact each index (by omega)

theorem Filled.canonical {limit count : Nat} {items : Items} (filled : Filled limit count items)
    (bound : count ≤ 2 ^ 31) : Canonical (limit + 1) (.arrayValue items) := by
  obtain ⟨child, rfl, each⟩ := filled
  obtain ⟨size, rfl⟩ : ∃ size : ArrayIndex, count = size.toNat :=
    ⟨UInt32.ofNat count, by rw [UInt32.toNat_ofNat']; omega⟩
  have small : size.toNat ≤ 2 ^ 32 := by omega
  constructor
  · refine .array (pairwise_indices child small) (fun item member => ?_)
    obtain ⟨index, below, rfl⟩ := List.mem_map.mp member
    exact (each index (List.mem_range.mp below)).ordered
  · rw [normalise_array, size_indices]
    congr 1
    apply List.map_congr_left
    intro index member
    have below := List.mem_range.mp member
    rw [element_indices child small below, (each index below).normal]
  · rw [Node.levels]
    refine Nat.succ_le_succ (Node.levelsItems_le (fun item member => ?_))
    obtain ⟨index, below, rfl⟩ := List.mem_map.mp member
    exact (each index (List.mem_range.mp below)).flat

/-- The members of an object. -/
structure Named (limit : Nat) (members : Members) : Prop where
  names : members.Pairwise (fun member later => member.1 < later.1)
  each : ∀ member ∈ members, Canonical limit member.2

theorem Named.assign {limit : Nat} {members : Members} (named : Named limit members) (name : Bytes)
    {node : Node} (canonical : Canonical limit node) :
    Named limit (Json.assign (resolveReference members name).2 name node) where
  names := names_assign name node (names_resolveReference name named.names)
  each := forall_assign named.each canonical

theorem Named.canonical {limit : Nat} {members : Members} (named : Named limit members) :
    Canonical (limit + 1) (.objectValue members) := by
  constructor
  · exact .object named.names (fun member present => (named.each member present).ordered)
  · rw [Node.normalise, Node.normaliseMembers_eq]
    congr 1
    refine (List.map_congr_left (fun member present => ?_)).trans (List.map_id members)
    rw [(named.each member present).normal, id]
  · rw [Node.levels]
    exact Nat.succ_le_succ (Node.levelsMembers_le (fun member present =>
      (named.each member present).flat))

variable {read : Bytes → Except Failure (Node × Bytes)}

variable {strtod : Bytes → Option UInt64}

end Reader

end TalusVSwitch.Json
