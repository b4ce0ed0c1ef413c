import TalusVSwitch.Library.Sweep
import TalusVSwitch.CText

/-! `Json::Value` of jsoncpp: a tree whose arrays and objects are both a `std::map`, with
an index or a name as the key. -/

namespace TalusVSwitch.Json

/-- `ArrayIndex`, in which jsoncpp also counts. -/
abbrev ArrayIndex := UInt32

/-- The nodes of a value. A map is the list of its entries, in key order; of a `double`
the model has the bits. -/
inductive Node where
  | nullValue
  | intValue (value : Int64)
  | uintValue (value : UInt64)
  | realValue (bits : UInt64)
  | stringValue (value : Bytes)
  | booleanValue (value : Bool)
  | arrayValue (items : List (ArrayIndex × Node))
  | objectValue (members : List (Bytes × Node))
deriving Repr

abbrev Items := List (ArrayIndex × Node)

abbrev Members := List (Bytes × Node)

namespace Node

def isNull : Node → Bool
  | .nullValue => true
  | _ => false

def isArray : Node → Bool
  | .arrayValue _ => true
  | _ => false

def isObject : Node → Bool
  | .objectValue _ => true
  | _ => false

/-- `Value::size`: of an array the highest index and one, in 32 bits like the number of
an object's members. -/
def size : Node → ArrayIndex
  | .arrayValue items =>
    match items.getLast? with
    | some last => last.1 + 1
    | none => 0
  | .objectValue members => UInt32.ofNat members.length
  | _ => 0

/-- `Value::empty` -/
def empty (node : Node) : Bool :=
  if node.isNull || node.isArray || node.isObject then node.size == 0 else false

/-- The values with nothing below them, `null` apart. -/
def isScalar (node : Node) : Bool := !(node.isNull || node.isArray || node.isObject)

mutual

/-- How many containers there are above the deepest node. -/
def depth : Node → Nat
  | .arrayValue items => depthItems items + 1
  | .objectValue members => depthMembers members + 1
  | _ => 0

def depthItems : Items → Nat
  | [] => 0
  | (_, child) :: rest => max child.depth (depthItems rest)

def depthMembers : Members → Nat
  | [] => 0
  | (_, child) :: rest => max child.depth (depthMembers rest)

end

end Node

/-- `getMemberNames` -/
def getMemberNames (members : Members) : List Bytes := members.map Prod.fst

/-- `resolveReference`, behind the `operator[]` that is not `const`: the member of a name,
and the map, in which a missing member is created at its place. -/
def resolveReference (members : Members) (key : Bytes) : Node × Members :=
  match members.lookup key with
  | some child => (child, members)
  | none =>
    (.nullValue, members.takeWhile (fun member => member.1 < key) ++
      (key, .nullValue) :: members.dropWhile (fun member => member.1 < key))

/-- What is done to a member in its place. -/
def assign (members : Members) (key : Bytes) (child : Node) : Members :=
  members.map (fun member => (member.1, if member.1 == key then child else member.2))

/-- `removeMember`, which takes the name as a C string. -/
def removeMember (members : Members) (key : Bytes) : Members :=
  members.filter (fun member => member.1 != cStr key)

namespace Node

/-- A step from a container to one of its entries. -/
inductive Step where
  | member (name : Bytes)
  | element (index : ArrayIndex)
deriving DecidableEq, Repr

/-- The entry a step leads to. -/
def entry (node : Node) (step : Step) : Option Node :=
  match node, step with
  | .objectValue members, .member name => members.lookup name
  | .arrayValue items, .element index => items.lookup index
  | _, _ => none

/-- The node at the end of a path. -/
def follow (node : Node) : List Step → Option Node
  | [] => some node
  | step :: path => (node.entry step).bind (fun below => below.follow path)

/-- Every map below is in the order of its keys: indices by number, names as `memcmp`
compares them, a name before its extensions. -/
inductive Ordered : Node → Prop
  | leaf {node : Node} (noArray : node.isArray = false) (noObject : node.isObject = false) :
    Ordered node
  | array {items : Items} (indices : items.Pairwise (fun item later => item.1 < later.1))
    (below : ∀ item ∈ items, Ordered item.2) : Ordered (.arrayValue items)
  | object {members : Members} (names : members.Pairwise (fun member later => member.1 < later.1))
    (below : ∀ member ∈ members, Ordered member.2) : Ordered (.objectValue members)

end Node

/-- `Json::Value` -/
@[ext] structure Value where
  node : Node
  ordered : node.Ordered

namespace Node

theorem depth_item {items : Items} {item : ArrayIndex × Node} (member : item ∈ items) :
    item.2.depth < (Node.arrayValue items).depth := by
  rw [depth, Nat.lt_succ_iff]
  induction items with
  | nil => cases member
  | cons first rest ih =>
    rcases List.mem_cons.mp member with rfl | later
    · exact Nat.le_max_left _ _
    · exact Nat.le_trans (ih later) (Nat.le_max_right _ _)

theorem depth_member {members : Members} {member : Bytes × Node} (present : member ∈ members) :
    member.2.depth < (Node.objectValue members).depth := by
  rw [depth, Nat.lt_succ_iff]
  induction members with
  | nil => cases present
  | cons first rest ih =>
    rcases List.mem_cons.mp present with rfl | later
    · exact Nat.le_max_left _ _
    · exact Nat.le_trans (ih later) (Nat.le_max_right _ _)

/-- Induction over a value: what holds of the entries of a map holds of the map. -/
theorem induction {motive : Node → Prop}
    (leaf : ∀ node : Node, node.isArray = false → node.isObject = false → motive node)
    (array : ∀ items : Items, (∀ item ∈ items, motive item.2) → motive (.arrayValue items))
    (object : ∀ members : Members, (∀ member ∈ members, motive member.2) →
      motive (.objectValue members)) (node : Node) : motive node := by
  induction deep : node.depth using Nat.strong_induction_on generalizing node with
  | _ depth ih =>
    subst deep
    match node with
    | .arrayValue items => exact array items (fun item member => ih _ (depth_item member) _ rfl)
    | .objectValue members =>
      exact object members (fun member present => ih _ (depth_member present) _ rfl)
    | .nullValue | .intValue _ | .uintValue _ | .realValue _ | .stringValue _ | .booleanValue _ =>
      exact leaf _ rfl rfl

namespace Ordered

theorem indices {items : Items} (ordered : Ordered (.arrayValue items)) :
    items.Pairwise (fun item later => item.1 < later.1) := by
  cases ordered with
  | leaf noArray => cases noArray
  | array indices => exact indices

theorem item {items : Items} (ordered : Ordered (.arrayValue items)) {item : ArrayIndex × Node}
    (member : item ∈ items) : item.2.Ordered := by
  cases ordered with
  | leaf noArray => cases noArray
  | array _ below => exact below item member

theorem names {members : Members} (ordered : Ordered (.objectValue members)) :
    members.Pairwise (fun member later => member.1 < later.1) := by
  cases ordered with
  | leaf _ noObject => cases noObject
  | object names => exact names

theorem member {members : Members} (ordered : Ordered (.objectValue members))
    {member : Bytes × Node} (present : member ∈ members) : member.2.Ordered := by
  cases ordered with
  | leaf _ noObject => cases noObject
  | object _ below => exact below member present

theorem lookup_item {items : Items} (ordered : Ordered (.arrayValue items)) {index : ArrayIndex}
    {child : Node} : items.lookup index = some child ↔ (index, child) ∈ items := by
  apply Sweep.lookup_eq_some_iff_mem
  exact ordered.indices.imp (fun before => UInt32.ne_of_lt before)

theorem lookup_member {members : Members} (ordered : Ordered (.objectValue members))
    {name : Bytes} {child : Node} :
    members.lookup name = some child ↔ (name, child) ∈ members := by
  apply Sweep.lookup_eq_some_iff_mem
  refine ordered.names.imp (fun before same => ?_)
  rw [same] at before
  exact List.lt_irrefl _ before

theorem unique_member {members : Members} (ordered : Ordered (.objectValue members))
    {member other : Bytes × Node} (present : member ∈ members) (another : other ∈ members)
    (same : member.1 = other.1) : member = other := by
  have found := ordered.lookup_member.mpr present
  rw [same, ordered.lookup_member.mpr another] at found
  exact Prod.ext same (Option.some.inj found).symm

end Ordered

theorem follow_item {items : Items} (ordered : Ordered (.arrayValue items))
    {item : ArrayIndex × Node} (member : item ∈ items) (path : List Step) :
    (Node.arrayValue items).follow (.element item.1 :: path) = item.2.follow path := by
  rw [follow, entry, ordered.lookup_item.mpr member, Option.bind_some]

theorem follow_member {members : Members} (ordered : Ordered (.objectValue members))
    {member : Bytes × Node} (present : member ∈ members) (path : List Step) :
    (Node.objectValue members).follow (.member member.1 :: path) = member.2.follow path := by
  rw [follow, entry, ordered.lookup_member.mpr present, Option.bind_some]

/-- A path into a node is empty, or goes through one of its entries. -/
theorem follow_cases {node below : Node} {path : List Step} (ordered : node.Ordered)
    (reached : node.follow path = some below) :
    (path = [] ∧ node = below) ∨
    (∃ items, node = .arrayValue items ∧ ∃ item ∈ items, ∃ rest,
      path = .element item.1 :: rest ∧ item.2.follow rest = some below) ∨
    (∃ members, node = .objectValue members ∧ ∃ member ∈ members, ∃ rest,
      path = .member member.1 :: rest ∧ member.2.follow rest = some below) := by
  cases path with
  | nil => exact .inl ⟨rfl, Option.some.inj reached⟩
  | cons step rest =>
    right
    obtain ⟨next, stepped, later⟩ := Option.bind_eq_some_iff.mp reached
    cases node with
    | arrayValue items =>
      cases step with
      | element index =>
        exact .inl ⟨items, rfl, (index, next), ordered.lookup_item.mp stepped, rest, rfl, later⟩
      | member name => cases stepped
    | objectValue members =>
      cases step with
      | element index => cases stepped
      | member name =>
        exact .inr ⟨members, rfl, (name, next), ordered.lookup_member.mp stepped, rest, rfl, later⟩
    | nullValue | intValue | uintValue | realValue | stringValue | booleanValue =>
      cases step <;> cases stepped

theorem Ordered.follow {node below : Node} {path : List Step} (ordered : node.Ordered)
    (reached : node.follow path = some below) : below.Ordered := by
  induction path generalizing node with
  | nil =>
    cases Option.some.inj reached
    exact ordered
  | cons step rest ih =>
    rcases follow_cases ordered reached with ⟨absurd, -⟩ | ⟨_, rfl, item, member, _, same, later⟩ |
      ⟨_, rfl, member, present, _, same, later⟩
    · cases absurd
    · cases same
      exact ih (ordered.item member) later
    · cases same
      exact ih (ordered.member present) later

end Node

end TalusVSwitch.Json
