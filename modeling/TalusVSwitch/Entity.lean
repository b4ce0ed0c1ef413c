import TalusVSwitch.JsonAccepted

namespace TalusVSwitch.Json

open Reader

namespace Node

/-- The members `getMemberNames` and `operator[]` find. Both throw on what is no object. -/
def fields : Node → Option Members
  | .nullValue => some []
  | .objectValue members => some members
  | _ => none

end Node

/-- `(*this)[key] = child` -/
def setField (self : Node) (key : Bytes) (child : Node) : Option Node := do
  let members ← self.fields
  some (.objectValue (assign (resolveReference members key).2 key child))

/-- `EntityBase::fromJson` -/
def fromJson (self value : Node) : Option Node := do
  let given ← value.fields
  (getMemberNames given).foldlM
    (fun self item => setField self item ((given.lookup item).getD .nullValue)) self

/-- `EntityBase::fromJsonStr`: what it returns, and what the entity is then. -/
def fromJsonStr (strtod : Bytes → Option UInt64) (self : Node) (str : Bytes) :
    Option (Bool × Node) :=
  match parse strtod str with
  | .ok value => (fromJson self value).map (fun self => (true, self))
  | .error .rejected => some (false, self)
  | .error .thrown => none
  | .error .exhausted => none

/-- `EntityBase::toJsonStr` -/
def toJsonStr (printf : Printf) (self : Value) (skipNull : Bool) : Option Bytes :=
  writeJson printf self skipNull

theorem lookup_create {members : Members} {key name : Bytes} (other : name ≠ key) :
    (resolveReference members key).2.lookup name = members.lookup name := by
  rw [resolveReference]
  cases members.lookup key with
  | some child => rfl
  | none =>
    have whole := @List.takeWhile_append_dropWhile _ (fun member => decide (member.1 < key)) members
    dsimp only
    conv => rhs; rw [← whole]
    rw [List.lookup_append, List.lookup_append, List.lookup_cons, beq_eq_false_iff_ne.mpr other]

theorem lookup_assign {members : Members} {key name : Bytes} {child : Node} :
    (assign members key child).lookup name =
      if name = key then (members.lookup name).map (fun _ => child) else members.lookup name := by
  induction members with
  | nil => split_ifs <;> rfl
  | cons member rest ih =>
    rw [assign] at ih
    rw [assign, List.map_cons, List.lookup_cons, List.lookup_cons, ih]
    by_cases here : name = member.1
    · rw [← here]
      simp only [beq_self_eq_true, beq_iff_eq, Option.map_some]
      split_ifs <;> rfl
    · rw [beq_eq_false_iff_ne.mpr here]

theorem lookup_created (members : Members) (key : Bytes) :
    ∃ child, (resolveReference members key).2.lookup key = some child := by
  rw [resolveReference]
  cases found : members.lookup key with
  | some child => exact ⟨child, found⟩
  | none =>
    dsimp only
    rw [List.lookup_append, List.lookup_cons, beq_self_eq_true]
    cases (members.takeWhile (fun member => member.1 < key)).lookup key with
    | none => exact ⟨.nullValue, rfl⟩
    | some child => exact ⟨child, rfl⟩

theorem lookup_set {members : Members} {key name : Bytes} {child : Node} :
    (assign (resolveReference members key).2 key child).lookup name =
      if name = key then some child else members.lookup name := by
  rw [lookup_assign]
  split_ifs with same
  · obtain ⟨before, found⟩ := lookup_created members key
    rw [same, found, Option.map_some]
  · exact lookup_create same

/-- The fields that are given take the place of those there were. -/
structure Merged (given own : Members) (entity : Node) : Prop where
  ordered : entity.Ordered
  taken : ∃ members, entity.fields = some members ∧
    ∀ name, members.lookup name = (given.lookup name).or (own.lookup name)

theorem Node.Ordered.fields {self : Node} (ordered : self.Ordered) {own : Members}
    (fields : self.fields = some own) : (Node.objectValue own).Ordered := by
  cases self with
  | nullValue =>
    cases fields
    exact .object List.Pairwise.nil (fun member present => absurd present List.not_mem_nil)
  | objectValue members =>
    cases fields
    exact ordered
  | intValue | uintValue | realValue | stringValue | booleanValue | arrayValue => cases fields

theorem setField_ordered {self child : Node} (ordered : self.Ordered) {own : Members}
    (fields : self.fields = some own) (key : Bytes) (below : child.Ordered) :
    setField self key child =
        some (.objectValue (assign (resolveReference own key).2 key child)) ∧
      (Node.objectValue (assign (resolveReference own key).2 key child)).Ordered := by
  have before := ordered.fields fields
  refine ⟨by rw [setField, fields]; rfl, .object ?_ ?_⟩
  · exact names_assign key child (names_resolveReference key before.names)
  · exact forall_assign (fun member present => before.member present) below

/-- Setting fields one by one, each to what stands under its name in a map. -/
theorem setFields_merge {given : Members} {child : Bytes → Node}
    (before : (Node.objectValue given).Ordered)
    (same : ∀ member ∈ given, child member.1 = member.2) {self : Node} (ordered : self.Ordered)
    {own : Members} (fields : self.fields = some own) :
    ∃ after, (getMemberNames given).foldlM
        (fun self item => setField self item (child item)) self = some after ∧
      Merged given own after := by
  induction given generalizing self own with
  | nil => exact ⟨self, rfl, ordered, own, fields, fun name => rfl⟩
  | cons member rest ih =>
    have below := before.member List.mem_cons_self
    have names := List.pairwise_cons.mp before.names
    have first := same member List.mem_cons_self
    obtain ⟨set, next⟩ := setField_ordered ordered fields member.1 below
    obtain ⟨after, folded, merged⟩ := ih
      (.object names.2 (fun later present => before.member (List.mem_cons_of_mem _ present)))
      (fun later present => same later (List.mem_cons_of_mem _ present)) next rfl
    obtain ⟨members, found, each⟩ := merged.taken
    refine ⟨after, ?_, merged.ordered, members, found, fun name => ?_⟩
    · rw [getMemberNames, List.map_cons, List.foldlM_cons, first, set]
      exact folded
    · rw [each, lookup_set, List.lookup_cons]
      by_cases here : name = member.1
      · have absent : rest.lookup name = none := by
          rw [List.lookup_eq_none_iff]
          intro later present
          rw [bne_iff_ne, here]
          intro equal
          have less := names.1 later present
          rw [equal] at less
          exact List.lt_irrefl _ less
        rw [absent, if_pos here, here, beq_self_eq_true]
        rfl
      · rw [if_neg here, beq_eq_false_iff_ne.mpr here]

/-- `fromJson` takes over the fields of the value, and leaves the others. -/
theorem fromJson_merge {self value : Node} (ordered : self.Ordered) (before : value.Ordered)
    {own given : Members} (fields : self.fields = some own) (others : value.fields = some given) :
    ∃ after, fromJson self value = some after ∧ Merged given own after := by
  have entries := before.fields others
  have same : ∀ member ∈ given, (given.lookup member.1).getD .nullValue = member.2 := by
    intro member present
    rw [entries.lookup_member.mpr present]
    rfl
  rw [fromJson, others]
  exact setFields_merge entries same ordered fields

theorem entry_fields {node : Node} {members : Members} (fields : node.fields = some members)
    (name : Bytes) : node.entry (.member name) = members.lookup name := by
  cases node with
  | nullValue => cases fields; rfl
  | objectValue => cases fields; rfl
  | intValue | uintValue | realValue | stringValue | booleanValue | arrayValue => cases fields

theorem fields_shown {value : Value} (entity : value.node.fields.isSome) (skipNull : Bool) :
    ∃ left, (value.shown skipNull).node.fields = some left := by
  obtain ⟨node, ordered⟩ := value
  cases skipNull with
  | false => exact Option.isSome_iff_exists.mp entity
  | true =>
    cases node with
    | nullValue => exact ⟨[], rfl⟩
    | objectValue members =>
      have pruned := removeNullMember_object ordered
      exact ⟨_, congrArg Node.fields pruned⟩
    | intValue | uintValue | realValue | stringValue | booleanValue | arrayValue => cases entity

theorem fields_normalise {node : Node} {given : Members} (fields : node.fields = some given) :
    node.normalise.fields = some (given.map (fun member => (member.1, member.2.normalise))) := by
  cases node with
  | nullValue =>
    cases fields
    rfl
  | objectValue members =>
    cases fields
    rw [Node.normalise, Node.normaliseMembers_eq]
    rfl
  | intValue | uintValue | realValue | stringValue | booleanValue | arrayValue => cases fields

/-- An entity takes over the fields that another one prints, and keeps its others: with
`skipNull` also those the other has nothing in. -/
theorem fromJsonStr_merges {printf : Printf} {strtod : Bytes → Option UInt64}
    {sender receiver : Value} (portable : Portable printf strtod sender.node)
    (flat : sender.node.levels ≤ stackLimit) (entity : sender.node.fields.isSome)
    (other : receiver.node.fields.isSome) (skipNull : Bool) :
    ∃ str after, toJsonStr printf sender skipNull = some str ∧
      fromJsonStr strtod receiver.node str = some (true, after) ∧ after.Ordered ∧
      ∀ name, after.entry (.member name) =
        (((sender.shown skipNull).node.entry (.member name)).map Node.normalise).or
          (receiver.node.entry (.member name)) := by
  obtain ⟨written, read⟩ := writeJson_text portable flat skipNull
  obtain ⟨given, fields⟩ := fields_shown entity skipNull
  obtain ⟨own, mine⟩ := Option.isSome_iff_exists.mp other
  obtain ⟨after, taken, merged⟩ := fromJson_merge receiver.ordered
    (sender.shown skipNull).normalise.ordered mine (fields_normalise fields)
  obtain ⟨members, now, each⟩ := merged.taken
  refine ⟨_, after, written, ?_, merged.ordered, fun name => ?_⟩
  · rw [fromJsonStr, read]
    show (fromJson receiver.node _).map _ = _
    rw [taken, Option.map_some]
  · rw [entry_fields now, entry_fields fields, entry_fields mine, each, Sweep.lookup_map]

theorem fromJsonStr_merges_gapped :
    ∃ str after, toJsonStr printHalf gapped true = some str ∧
      fromJsonStr readHalf gapped.node str = some (true, after) ∧ after.Ordered ∧
      ∀ name, after.entry (.member name) =
        (((gapped.shown true).node.entry (.member name)).map Node.normalise).or
          (gapped.node.entry (.member name)) :=
  fromJsonStr_merges portable_gapped (by decide) rfl rfl true

end TalusVSwitch.Json
