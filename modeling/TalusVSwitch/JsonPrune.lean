import TalusVSwitch.JsonText

namespace TalusVSwitch.Json

/-- The body of the loop over an object's names. `recurse` is the call on the member. -/
def visit (recurse : Node → Node) (node : Members) (key : Bytes) : Members :=
  let found := resolveReference node key
  if found.1.empty then removeMember found.2 key
  else assign found.2 key (recurse found.1)

/-- `removeNullMember` with so many calls to go down. -/
def removeNullMemberTo : Nat → Node → Node
  | depth + 1, .arrayValue items =>
    .arrayValue (items.map (fun item => (item.1, removeNullMemberTo depth item.2)))
  | depth + 1, .objectValue members =>
    .objectValue ((getMemberNames members).foldl (visit (removeNullMemberTo depth)) members)
  | _, node => node

/-- `removeNullMember`. No call goes below the deepest node. -/
def removeNullMember (node : Node) : Node := removeNullMemberTo node.depth node

/-- What a visit does with the member it finds. -/
def memberAction (recurse : Node → Node) (key : Bytes) (child : Node) :
    Sweep.Action Bytes Node :=
  if child.empty then .erase (cStr key) else .rewrite (recurse child)

theorem visit_acts (recurse : Node → Node) (node : Members) (key : Bytes) (child : Node)
    (found : node.lookup key = some child) :
    visit recurse node key = Sweep.act (memberAction recurse key child) key node := by
  have resolved : resolveReference node key = (child, node) := by simp [resolveReference, found]
  simp only [visit, resolved, memberAction]
  cases child.empty <;> rfl

theorem erasesKey_iff {recurse : Node → Node} {member : Bytes × Node} {key : Bytes} :
    Sweep.erasesKey (memberAction recurse) member key = true ↔
      member.2.empty = true ∧ cStr member.1 = key := by
  rw [Sweep.erasesKey, memberAction]
  cases member.2.empty <;> simp

@[simp] theorem settle_member (recurse : Node → Node) (member : Bytes × Node) :
    Sweep.settle (memberAction recurse) member =
      (member.1, if member.2.empty then member.2 else recurse member.2) := by
  rw [Sweep.settle, memberAction]
  cases member.2.empty <;> rfl

/-- Read as a C string, a name comes no later than it did. -/
theorem cStr_ne_of_lt {name later : Bytes} (before : name < later) : cStr name ≠ later := by
  rintro rfl
  exact List.IsPrefix.le (List.takeWhile_prefix _) before

theorem trailing_names {recurse : Node → Node} {members : Members}
    (names : members.Pairwise (fun member later => member.1 < later.1)) :
    Sweep.Trailing (memberAction recurse) members := by
  refine names.imp (fun {member later} before => ⟨?_, ?_⟩)
  · intro same
    rw [same] at before
    exact List.lt_irrefl _ before
  · rw [Bool.eq_false_iff]
    intro erases
    exact cStr_ne_of_lt before (erasesKey_iff.mp erases).2

private theorem removeNullMemberTo_object {members : Members}
    (ordered : Node.Ordered (.objectValue members)) (depth : Nat) :
    removeNullMemberTo (depth + 1) (.objectValue members) =
      .objectValue (Sweep.result (memberAction (removeNullMemberTo depth)) members) := by
  rw [removeNullMemberTo, getMemberNames,
    Sweep.foldl_keys (visit_acts _) (trailing_names ordered.names)]

private theorem removeNullMemberTo_leaf {node : Node} (noArray : node.isArray = false)
    (noObject : node.isObject = false) (depth : Nat) : removeNullMemberTo depth node = node := by
  cases node with
  | arrayValue => cases noArray
  | objectValue => cases noObject
  | nullValue | intValue | uintValue | realValue | stringValue | booleanValue =>
    cases depth <;> rfl

/-- More calls than there are levels make no difference. -/
theorem removeNullMemberTo_eq {node : Node} (ordered : node.Ordered) {depth : Nat}
    (enough : node.depth ≤ depth) : removeNullMemberTo depth node = removeNullMember node := by
  have stable (node : Node) : node.Ordered → ∀ first second, node.depth ≤ first →
      node.depth ≤ second → removeNullMemberTo first node = removeNullMemberTo second node := by
    induction node using Node.induction with
    | leaf node noArray noObject =>
      intro _ first second _ _
      rw [removeNullMemberTo_leaf noArray noObject, removeNullMemberTo_leaf noArray noObject]
    | array items ih =>
      intro ordered first second
      cases first with
      | zero => simp [Node.depth]
      | succ first =>
        cases second with
        | zero => simp [Node.depth]
        | succ second =>
          intro enough other
          rw [removeNullMemberTo, removeNullMemberTo]
          congr 1
          apply List.map_congr_left
          intro item member
          have below := Node.depth_item member
          rw [ih item member (ordered.item member) first second (by omega) (by omega)]
    | object members ih =>
      intro ordered first second
      cases first with
      | zero => simp [Node.depth]
      | succ first =>
        cases second with
        | zero => simp [Node.depth]
        | succ second =>
          intro enough other
          rw [removeNullMemberTo_object ordered, removeNullMemberTo_object ordered]
          congr 1
          apply Sweep.result_congr
          intro member present
          have below := Node.depth_member present
          rw [memberAction, memberAction,
            ih member present (ordered.member present) first second (by omega) (by omega)]
  exact stable node ordered depth node.depth enough (Nat.le_refl _)

theorem removeNullMember_leaf {node : Node} (noArray : node.isArray = false)
    (noObject : node.isObject = false) : removeNullMember node = node :=
  removeNullMemberTo_leaf noArray noObject _

theorem removeNullMember_scalar {node : Node} (scalar : node.isScalar = true) :
    removeNullMember node = node := by
  simp only [Node.isScalar, Bool.not_eq_true', Bool.or_eq_false_iff] at scalar
  exact removeNullMember_leaf scalar.1.2 scalar.2

theorem removeNullMember_array {items : Items} (ordered : Node.Ordered (.arrayValue items)) :
    removeNullMember (.arrayValue items) =
      .arrayValue (items.map (fun item => (item.1, removeNullMember item.2))) := by
  rw [removeNullMember, Node.depth, removeNullMemberTo]
  congr 1
  apply List.map_congr_left
  intro item member
  have below := Node.depth_item member
  rw [Node.depth] at below
  rw [removeNullMemberTo_eq (ordered.item member) (by omega)]

/-- Of an object, the loop leaves the members that no visit takes out, the empty ones as
they are and the others pruned. -/
theorem removeNullMember_object {members : Members} (ordered : Node.Ordered (.objectValue members)) :
    removeNullMember (.objectValue members) =
      .objectValue (Sweep.result (memberAction removeNullMember) members) := by
  rw [removeNullMember, Node.depth, removeNullMemberTo_object ordered]
  congr 1
  apply Sweep.result_congr
  intro member present
  have below := Node.depth_member present
  rw [Node.depth] at below
  rw [memberAction, memberAction, removeNullMemberTo_eq (ordered.member present) (by omega)]

theorem ordered_removeNullMember {node : Node} (ordered : node.Ordered) :
    (removeNullMember node).Ordered := by
  induction node using Node.induction with
  | leaf node noArray noObject =>
    rw [removeNullMember_leaf noArray noObject]
    exact ordered
  | array items ih =>
    rw [removeNullMember_array ordered]
    refine .array ?_ ?_
    · rw [List.pairwise_map]
      exact ordered.indices
    · intro pruned member
      obtain ⟨item, present, rfl⟩ := List.mem_map.mp member
      exact ih item present (ordered.item present)
  | object members ih =>
    rw [removeNullMember_object ordered]
    refine .object (Sweep.pairwise_result ordered.names) ?_
    intro pruned member
    obtain ⟨before, present, -, rfl⟩ := Sweep.mem_result.mp member
    rw [settle_member]
    split
    · exact ordered.member present
    · exact ih before present (ordered.member present)

/-- `removeNullMember` on a value. -/
def Value.removeNullMember (value : Value) : Value :=
  ⟨Json.removeNullMember value.node, ordered_removeNullMember value.ordered⟩

/-- `writeJson` -/
def writeJson (printf : Printf) (value : Value) (skipNull : Bool) : Option Bytes :=
  if !skipNull then trim (FastWriter.write printf value)
  else trim (FastWriter.write printf value.removeNullMember)

theorem writeJson_prints (printf : Printf) (value : Value) (skipNull : Bool) :
    ∃ text, writeJson printf value skipNull = some text := by
  have plain (root : Value) : 0xFF ∉ FastWriter.write printf root := by
    have lineEnd : 0xFF ∉ text "\n" := by decide
    simp only [FastWriter.write, List.mem_append, not_or]
    exact ⟨FastWriter.plain_writeValue printf root.node, lineEnd⟩
  cases skipNull with
  | false => exact trim_of_notMem (plain value)
  | true => exact trim_of_notMem (plain value.removeNullMember)

end TalusVSwitch.Json
