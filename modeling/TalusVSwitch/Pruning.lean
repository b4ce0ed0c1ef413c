import TalusVSwitch.JsonPrune

/-! What `removeNullMember` makes of a whole value. It tests a member before it goes down
into it, and takes the name it erases as a C string: pruning is complete, and keeps what
it should, exactly where neither makes a difference. -/

namespace TalusVSwitch.Json

open Node

/-- No object below has an empty member. -/
def Complete (node : Node) : Prop :=
  ∀ path members, node.follow path = some (.objectValue members) →
    ∀ member ∈ members, member.2.empty = false

/-- Whether a path ends at a member of an object. -/
def underName (path : List Step) : Bool :=
  match path.getLast? with
  | some (.member _) => true
  | _ => false

theorem underName_cons (step : Step) {rest : List Step} (further : rest ≠ []) :
    underName (step :: rest) = underName rest := by
  obtain ⟨next, others, rfl⟩ := List.exists_cons_of_ne_nil further
  rw [underName, List.getLast?_cons_cons, underName]

/-- What pruning is for. An empty array that is a member of an object is itself pruned. -/
structure PrunesWell (value : Value) : Prop where
  complete : Complete value.removeNullMember.node
  arrays : ∀ path items, value.node.follow path = some (.arrayValue items) →
    (items = [] → underName path = false) →
    value.removeNullMember.node.follow path =
      some (.arrayValue (items.map (fun item => (item.1, removeNullMember item.2))))
  scalars : ∀ path scalar, value.node.follow path = some scalar → scalar.isScalar = true →
    value.removeNullMember.node.follow path = some scalar
  idempotent : value.removeNullMember.removeNullMember = value.removeNullMember
  sameText : ∀ printf, ∃ text, writeJson printf value.removeNullMember true = some text ∧
    writeJson printf value.removeNullMember false = some text

/-- The nodes that pruning may not lose. -/
def isKept : Node → Bool
  | .arrayValue items => !items.isEmpty
  | node => node.isScalar

theorem isKept_of_scalar {node : Node} (scalar : node.isScalar = true) : isKept node = true := by
  cases node with
  | arrayValue => cases scalar
  | _ => exact scalar

theorem array_of_kept {node : Node} (kept : isKept node = true) (other : node.isScalar = false) :
    ∃ items, node = .arrayValue items ∧ items ≠ [] := by
  cases node with
  | arrayValue items =>
    refine ⟨items, rfl, ?_⟩
    rintro rfl
    cases kept
  | _ => exact absurd kept (by simp [isKept, other])

/-- The nodes with nothing below that pruning may not lose. -/
inductive Worthless : Node → Prop
  | null : Worthless .nullValue
  | array : Worthless (.arrayValue [])
  | object {members : Members} (below : ∀ member ∈ members, Worthless member.2) :
    Worthless (.objectValue members)

/-- An object that is left with a `size` of zero when its empty members are gone. -/
def hollow : Node → Bool
  | .objectValue members => UInt32.ofNat (members.countP (fun member => !member.2.empty)) == 0
  | _ => false

/-- The values `removeNullMember` prunes well. An empty member has a name without a NUL
and holds nothing, as every one does whose `size` has not wrapped around; a member that is
not empty is not hollow either. -/
inductive Prunable : Node → Prop
  | leaf {node : Node} (noArray : node.isArray = false) (noObject : node.isObject = false) :
    Prunable node
  | array {items : Items} (below : ∀ item ∈ items, Prunable item.2) : Prunable (.arrayValue items)
  | object {members : Members}
    (plain : ∀ member ∈ members, member.2.empty = true → 0 ∉ member.1)
    (nothing : ∀ member ∈ members, member.2.empty = true → Worthless member.2)
    (solid : ∀ member ∈ members, member.2.empty = false → hollow member.2 = false)
    (below : ∀ member ∈ members, member.2.empty = false → Prunable member.2) :
    Prunable (.objectValue members)

theorem complete_array {items : Items} (ordered : Ordered (.arrayValue items)) :
    Complete (.arrayValue items) ↔ ∀ item ∈ items, Complete item.2 := by
  constructor
  · intro complete item member path members reached
    apply complete (.element item.1 :: path)
    rw [follow_item ordered member, reached]
  · intro each path members reached
    rcases follow_cases ordered reached with ⟨-, same⟩ | ⟨_, same, item, member, rest, -, later⟩ |
      ⟨_, same, _⟩
    · cases same
    · cases same
      exact each item member rest members later
    · cases same

theorem complete_object {members : Members} (ordered : Ordered (.objectValue members)) :
    Complete (.objectValue members) ↔
      ∀ member ∈ members, member.2.empty = false ∧ Complete member.2 := by
  constructor
  · intro complete member present
    refine ⟨complete [] members rfl member present, ?_⟩
    intro path deeper reached
    apply complete (.member member.1 :: path)
    rw [follow_member ordered present, reached]
  · intro each path deeper reached
    rcases follow_cases ordered reached with ⟨-, same⟩ | ⟨_, same, _⟩ |
      ⟨_, same, member, present, rest, -, later⟩
    · cases same
      exact fun member present => (each member present).1
    · cases same
    · cases same
      exact (each member present).2 rest deeper later

theorem complete_leaf {node : Node} (ordered : node.Ordered) (noArray : node.isArray = false)
    (noObject : node.isObject = false) : Complete node := by
  intro path members reached
  rcases follow_cases ordered reached with ⟨-, rfl⟩ | ⟨_, rfl, _⟩ | ⟨_, rfl, _⟩
  · cases noObject
  · cases noArray
  · cases noObject

theorem removeNullMember_of_complete {node : Node} (ordered : node.Ordered)
    (complete : Complete node) : removeNullMember node = node := by
  induction node using Node.induction with
  | leaf node noArray noObject => exact removeNullMember_leaf noArray noObject
  | array items ih =>
    have each := (complete_array ordered).mp complete
    have same : ∀ item ∈ items, (item.1, removeNullMember item.2) = item := by
      intro item member
      rw [ih item member (ordered.item member) (each item member)]
    rw [removeNullMember_array ordered, List.map_congr_left same, List.map_id']
  | object members ih =>
    have each := (complete_object ordered).mp complete
    have rewrites : ∀ member ∈ members, ∀ key,
        Sweep.erasesKey (memberAction removeNullMember) member key = false := by
      intro member present key
      rw [Bool.eq_false_iff]
      intro erases
      have empty := (erasesKey_iff.mp erases).1
      rw [(each member present).1] at empty
      cases empty
    have same : ∀ member ∈ members,
        Sweep.settle (memberAction removeNullMember) member = member := by
      intro member present
      rw [settle_member, (each member present).1,
        ih member present (ordered.member present) (each member present).2]
      rfl
    rw [removeNullMember_object ordered, Sweep.result_of_rewrites rewrites,
      List.map_congr_left same, List.map_id']

/-- The members that are not empty, pruned. -/
def pruneFull (members : Members) : Members :=
  (members.filter (fun member => !member.2.empty)).map
    (fun member => (member.1, removeNullMember member.2))

theorem mem_pruneFull {members : Members} {after : Bytes × Node} :
    after ∈ pruneFull members ↔
      ∃ member ∈ members, member.2.empty = false ∧ (member.1, removeNullMember member.2) = after := by
  simp [pruneFull, and_assoc]

theorem removeNullMember_of_plain {members : Members} (ordered : Ordered (.objectValue members))
    (plain : ∀ member ∈ members, member.2.empty = true → 0 ∉ member.1) :
    removeNullMember (.objectValue members) = .objectValue (pruneFull members) := by
  have same : members.filter (fun member => !members.any (fun visited =>
      Sweep.erasesKey (memberAction removeNullMember) visited member.1)) =
      members.filter (fun member => !member.2.empty) := by
    apply List.filter_congr
    intro member present
    rw [Bool.eq_iff_iff, Bool.not_eq_true', Bool.not_eq_true', Bool.eq_false_iff,
      Bool.eq_false_iff, Ne, Ne, not_iff_not, List.any_eq_true]
    constructor
    · rintro ⟨visited, other, erases⟩
      obtain ⟨empty, named⟩ := erasesKey_iff.mp erases
      rw [cStr_of_notMem (plain visited other empty)] at named
      rwa [← ordered.unique_member other present named]
    · intro empty
      exact ⟨member, present, erasesKey_iff.mpr ⟨empty, cStr_of_notMem (plain member present empty)⟩⟩
  rw [removeNullMember_object ordered, Sweep.result, same]
  congr 1
  apply List.map_congr_left
  intro member left
  obtain ⟨-, full⟩ := List.mem_filter.mp left
  rw [settle_member, if_neg (by simpa using full)]

theorem empty_removeNullMember {node : Node} (ordered : node.Ordered) (prunable : Prunable node)
    (full : node.empty = false) : (removeNullMember node).empty = hollow node := by
  cases prunable with
  | leaf noArray noObject =>
    rw [removeNullMember_leaf noArray noObject, full]
    cases node with
    | objectValue => cases noObject
    | nullValue | intValue | uintValue | realValue | stringValue | booleanValue | arrayValue => rfl
  | @array items =>
    rw [removeNullMember_array ordered]
    simp only [empty, isNull, isArray, Bool.or_true, Bool.true_or, if_true, size,
      List.getLast?_map] at full ⊢
    cases last : items.getLast? <;> rw [last] at full <;> exact full
  | @object members plain =>
    rw [removeNullMember_of_plain ordered plain]
    simp only [empty, isNull, isArray, isObject, Bool.or_true, if_true, size, pruneFull,
      List.length_map, ← List.countP_eq_length_filter]
    rfl

theorem complete_removeNullMember {node : Node} (ordered : node.Ordered)
    (prunable : Prunable node) : Complete (removeNullMember node) := by
  induction prunable with
  | leaf noArray noObject =>
    rw [removeNullMember_leaf noArray noObject]
    exact complete_leaf ordered noArray noObject
  | @array items below ih =>
    have pruned := ordered_removeNullMember ordered
    rw [removeNullMember_array ordered] at pruned ⊢
    rw [complete_array pruned]
    intro after member
    obtain ⟨item, present, rfl⟩ := List.mem_map.mp member
    exact ih item present (ordered.item present)
  | @object members plain nothing solid below ih =>
    have pruned := ordered_removeNullMember ordered
    rw [removeNullMember_of_plain ordered plain] at pruned ⊢
    rw [complete_object pruned]
    intro after left
    obtain ⟨member, present, full, rfl⟩ := mem_pruneFull.mp left
    refine ⟨?_, ih member present full (ordered.member present)⟩
    rw [empty_removeNullMember (ordered.member present) (below member present full) full]
    exact solid member present full

theorem Worthless.follow {node below : Node} {path : List Step} (worthless : Worthless node)
    (ordered : node.Ordered) (reached : node.follow path = some below) :
    isKept below = false ∧ (path ≠ [] → underName path = true) := by
  induction path generalizing node with
  | nil =>
    cases Option.some.inj reached
    cases worthless <;> exact ⟨rfl, fun absurd => (absurd rfl).elim⟩
  | cons step rest ih =>
    rcases follow_cases ordered reached with ⟨absurd, -⟩ | ⟨_, rfl, item, member, _⟩ |
      ⟨_, rfl, member, present, _, same, later⟩
    · cases absurd
    · cases worthless
      cases member
    · cases worthless with
      | object nothing =>
        cases same
        obtain ⟨lost, named⟩ := ih (nothing member present) (ordered.member present) later
        refine ⟨lost, fun _ => ?_⟩
        cases rest with
        | nil => rfl
        | cons next others =>
          rw [underName_cons _ (List.cons_ne_nil _ _)]
          exact named (List.cons_ne_nil _ _)

theorem worthless_of_follow {node : Node} (ordered : node.Ordered)
    (nothing : ∀ path below, node.follow path = some below → isKept below = false) :
    Worthless node := by
  induction node using Node.induction with
  | leaf node noArray noObject =>
    have lost := nothing [] node rfl
    cases node with
    | nullValue => exact .null
    | arrayValue => cases noArray
    | objectValue => cases noObject
    | intValue | uintValue | realValue | stringValue | booleanValue => cases lost
  | array items =>
    have lost := nothing [] _ rfl
    cases items with
    | nil => exact .array
    | cons => cases lost
  | object members ih =>
    refine .object (fun member present => ih member present (ordered.member present) ?_)
    intro path below reached
    apply nothing (.member member.1 :: path)
    rw [follow_member ordered present, reached]

/-- Everything worth keeping is found, pruned, where it was. An empty array is found
again unless it is a member. -/
theorem follow_removeNullMember {node below : Node} {path : List Step} (ordered : node.Ordered)
    (prunable : Prunable node) (reached : node.follow path = some below)
    (kept : isKept below = false → path ≠ [] → underName path = false) :
    (removeNullMember node).follow path = some (removeNullMember below) := by
  induction path generalizing node with
  | nil =>
    cases Option.some.inj reached
    rfl
  | cons step rest ih =>
    have pruned := ordered_removeNullMember ordered
    have later : isKept below = false → rest ≠ [] → underName rest = false := by
      intro lost further
      rw [← underName_cons step further]
      exact kept lost (List.cons_ne_nil _ _)
    rcases follow_cases ordered reached with ⟨absurd, -⟩ | ⟨items, rfl, item, member, _, same, there⟩ |
      ⟨members, rfl, member, present, _, same, there⟩
    · cases absurd
    · cases same
      cases prunable with
      | leaf noArray => cases noArray
      | array each =>
        rw [removeNullMember_array ordered] at pruned ⊢
        rw [follow_item pruned (List.mem_map.mpr ⟨item, member, rfl⟩)]
        exact ih (ordered.item member) (each item member) there later
    · cases same
      cases prunable with
      | leaf _ noObject => cases noObject
      | object plain nothing solid each =>
        cases full : member.2.empty with
        | true =>
          obtain ⟨lost, named⟩ :=
            (nothing member present full).follow (ordered.member present) there
          have apart := kept lost (List.cons_ne_nil _ _)
          cases rest with
          | nil => cases apart
          | cons next others =>
            rw [underName_cons _ (List.cons_ne_nil _ _), named (List.cons_ne_nil _ _)] at apart
            cases apart
        | false =>
          rw [removeNullMember_of_plain ordered plain] at pruned ⊢
          rw [follow_member pruned (mem_pruneFull.mpr ⟨member, present, full, rfl⟩)]
          exact ih (ordered.member present) (each member present full) there later

/-- An empty member with a NUL in its name is not erased, whatever else is. -/
theorem plain_of_complete {members : Members} (ordered : Ordered (.objectValue members))
    (complete : Complete (removeNullMember (.objectValue members))) :
    ∀ member ∈ members, member.2.empty = true → 0 ∉ member.1 := by
  intro member present empty nul
  have pruned := ordered_removeNullMember ordered
  rw [removeNullMember_object ordered] at pruned complete
  have left : member ∈ Sweep.result (memberAction removeNullMember) members := by
    refine Sweep.mem_result.mpr ⟨member, present, fun other _ => ?_, ?_⟩
    · rw [Bool.eq_false_iff]
      intro erases
      rw [← (erasesKey_iff.mp erases).2] at nul
      exact notMem_cStr other.1 nul
    · rw [settle_member, empty]
      rfl
  rw [((complete_object pruned).mp complete member left).1] at empty
  cases empty

theorem follow_pruneFull_empty {members : Members} (ordered : Ordered (.objectValue members))
    {member : Bytes × Node} (present : member ∈ members) (empty : member.2.empty = true)
    (path : List Step) :
    (Node.objectValue (pruneFull members)).follow (.member member.1 :: path) = none := by
  have absent : (pruneFull members).lookup member.1 = none := by
    rw [List.lookup_eq_none_iff]
    intro after left
    obtain ⟨other, another, full, rfl⟩ := mem_pruneFull.mp left
    rw [bne_iff_ne]
    intro same
    rw [← ordered.unique_member present another same, empty] at full
    cases full
  rw [follow, entry, absent, Option.bind_none]

/-- What pruning does not lose below a node. -/
def Keeps (node : Node) : Prop :=
  ∀ path below, node.follow path = some below → isKept below = true →
    (removeNullMember node).follow path = some (removeNullMember below)

/-- A value whose pruning is complete and keeps what it should is prunable. -/
theorem prunable_of_kept {node : Node} (ordered : node.Ordered)
    (complete : Complete (removeNullMember node)) (keeps : Keeps node) : Prunable node := by
  induction node using Node.induction with
  | leaf node noArray noObject => exact .leaf noArray noObject
  | array items ih =>
    have pruned := ordered_removeNullMember ordered
    rw [removeNullMember_array ordered] at pruned complete
    refine .array (fun item member => ?_)
    have moved : (item.1, removeNullMember item.2) ∈
        items.map (fun item => (item.1, removeNullMember item.2)) :=
      List.mem_map.mpr ⟨item, member, rfl⟩
    refine ih item member (ordered.item member) ((complete_array pruned).mp complete _ moved) ?_
    intro path below reached kept
    rw [← follow_item pruned moved, ← removeNullMember_array ordered]
    apply keeps _ below _ kept
    rw [follow_item ordered member, reached]
  | object members ih =>
    have plain := plain_of_complete ordered complete
    have pruned := ordered_removeNullMember ordered
    rw [removeNullMember_of_plain ordered plain] at pruned complete
    have each := (complete_object pruned).mp complete
    have stays {member : Bytes × Node} (present : member ∈ members)
        (full : member.2.empty = false) :
        (member.1, removeNullMember member.2) ∈ pruneFull members :=
      mem_pruneFull.mpr ⟨member, present, full, rfl⟩
    have below : ∀ member ∈ members, member.2.empty = false → Prunable member.2 := by
      intro member present full
      refine ih member present (ordered.member present) (each _ (stays present full)).2 ?_
      intro path below reached kept
      rw [← follow_member pruned (stays present full), ← removeNullMember_of_plain ordered plain]
      apply keeps _ below _ kept
      rw [follow_member ordered present, reached]
    refine .object plain ?_ ?_ below
    · intro member present empty
      apply worthless_of_follow (ordered.member present)
      intro path lost reached
      rw [Bool.eq_false_iff]
      intro kept
      have there := keeps (.member member.1 :: path) lost
        (by rw [follow_member ordered present, reached]) kept
      rw [removeNullMember_of_plain ordered plain,
        follow_pruneFull_empty ordered present empty] at there
      cases there
    · intro member present full
      rw [← empty_removeNullMember (ordered.member present) (below member present full) full]
      exact (each _ (stays present full)).1

/-- A value is pruned completely, keeps its arrays and scalars, and stays as it is when it
is pruned again, exactly if it is prunable. -/
theorem prunes_well_iff (value : Value) : PrunesWell value ↔ Prunable value.node := by
  have ordered := value.ordered
  constructor
  · intro well
    refine prunable_of_kept ordered well.complete (fun path below reached kept => ?_)
    cases scalar : below.isScalar with
    | true =>
      rw [removeNullMember_scalar scalar]
      exact well.scalars path below reached scalar
    | false =>
      obtain ⟨items, rfl, some⟩ := array_of_kept kept scalar
      rw [removeNullMember_array (ordered.follow reached)]
      exact well.arrays path items reached (fun none => absurd none some)
  · intro prunable
    have complete := complete_removeNullMember ordered prunable
    have settled : value.removeNullMember.removeNullMember = value.removeNullMember :=
      Value.ext (removeNullMember_of_complete (ordered_removeNullMember ordered) complete)
    refine ⟨complete, ?_, ?_, settled, ?_⟩
    · intro path items reached apart
      rw [← removeNullMember_array (ordered.follow reached)]
      apply follow_removeNullMember ordered prunable reached
      intro lost _
      exact apart (List.isEmpty_iff.mp (by simpa [isKept] using lost))
    · intro path scalar reached isScalar
      rw [← removeNullMember_scalar isScalar]
      apply follow_removeNullMember ordered prunable reached
      intro lost
      rw [isKept_of_scalar isScalar] at lost
      cases lost
    · intro printf
      obtain ⟨text, prints⟩ := writeJson_prints printf value.removeNullMember false
      refine ⟨text, ?_, prints⟩
      rw [← prints]
      simp only [writeJson, settled, Bool.not_true, Bool.not_false, if_true, Bool.false_eq_true,
        if_false]

/-- `{"a":{"b":null}}` -/
def nestedNull : Value where
  node := .objectValue [(text "a", .objectValue [(text "b", .nullValue)])]
  ordered := by
    refine .object (List.pairwise_singleton _ _) (fun member present => ?_)
    cases List.mem_singleton.mp present
    refine .object (List.pairwise_singleton _ _) (fun member present => ?_)
    cases List.mem_singleton.mp present
    exact .leaf rfl rfl

/-- The inner object is tested while it still has its member, and stays when it has lost
it. Pruned again, it goes. -/
theorem emptied_member_stays :
    ¬ PrunesWell nestedNull ∧
      ∀ printf,
        writeJson printf nestedNull.removeNullMember false = some (text "\x7b\"a\":\x7b\x7d\x7d") ∧
        writeJson printf nestedNull.removeNullMember true = some (text "\x7b\x7d") := by
  refine ⟨?_, fun printf => ⟨rfl, rfl⟩⟩
  intro well
  have left : nestedNull.removeNullMember.node.follow [] =
      some (.objectValue [(text "a", .objectValue [])]) := rfl
  have full := well.complete [] _ left _ List.mem_cons_self
  cases full

/-- An empty member with a NUL in its name stays, and takes another one with it. -/
example :
    removeNullMember (.objectValue [(text "a", .intValue 5), (text "a\x00b", .nullValue)]) =
      .objectValue [(text "a\x00b", .nullValue)] := rfl

end TalusVSwitch.Json
