import Mathlib.Data.List.Basic

/-! A loop over the keys of a map that, at each key, either takes an entry out of the
map or replaces the item under the cursor. What it takes out is never ahead of it. -/

namespace Sweep

universe u v w
variable {Key : Type u} {Item : Type v}

/-- What a visit does to the map: erase the entry of some key, or put another item
under the cursor. -/
inductive Action (Key : Type u) (Item : Type v) where
  | erase (victim : Key)
  | rewrite (item : Item)

/-- An action carried out at a key. -/
def act [BEq Key] (action : Action Key Item) (cursor : Key) (entries : List (Key × Item)) :
    List (Key × Item) :=
  match action with
  | .erase victim => entries.filter (fun entry => entry.1 != victim)
  | .rewrite item => entries.map (fun entry => (entry.1, if entry.1 == cursor then item else entry.2))

section
variable (choose : Key → Item → Action Key Item)

/-- An entry after its own visit. -/
def settle (entry : Key × Item) : Key × Item :=
  match choose entry.1 entry.2 with
  | .erase _ => entry
  | .rewrite item => (entry.1, item)

@[simp] theorem settle_fst (entry : Key × Item) : (settle choose entry).1 = entry.1 := by
  unfold settle
  split <;> rfl

variable [BEq Key]

/-- Whether the visit of an entry erases a key. -/
def erasesKey (entry : Key × Item) (key : Key) : Bool :=
  match choose entry.1 entry.2 with
  | .erase victim => victim == key
  | .rewrite _ => false

/-- The entries that no visit erases, each after its own visit. -/
def result (entries : List (Key × Item)) : List (Key × Item) :=
  (entries.filter (fun entry => !entries.any (fun visited => erasesKey choose visited entry.1))).map
    (settle choose)

/-- The keys are distinct, and a visit erases nothing behind its own key. -/
def Trailing (entries : List (Key × Item)) : Prop :=
  entries.Pairwise (fun earlier later =>
    earlier.1 ≠ later.1 ∧ erasesKey choose earlier later.1 = false)

end

variable [BEq Key] {choose : Key → Item → Action Key Item}

theorem mem_result {entries : List (Key × Item)} {entry : Key × Item} :
    entry ∈ result choose entries ↔
      ∃ visited ∈ entries, (∀ other ∈ entries, erasesKey choose other visited.1 = false) ∧
        settle choose visited = entry := by
  simp [result, and_assoc]

theorem result_of_rewrites {entries : List (Key × Item)}
    (rewrites : ∀ entry ∈ entries, ∀ key, erasesKey choose entry key = false) :
    result choose entries = entries.map (settle choose) := by
  rw [result, List.filter_eq_self.mpr]
  intro entry _
  simp only [Bool.not_eq_true', List.any_eq_false, Bool.not_eq_true]
  exact fun visited member => rewrites visited member entry.1

/-- What a sweep leaves depends on the actions at the entries it starts with only. -/
theorem result_congr {other : Key → Item → Action Key Item} {entries : List (Key × Item)}
    (same : ∀ entry ∈ entries, choose entry.1 entry.2 = other entry.1 entry.2) :
    result choose entries = result other entries := by
  have erases : ∀ visited ∈ entries, erasesKey choose visited = erasesKey other visited := by
    intro visited member
    funext key
    rw [erasesKey, erasesKey, same visited member]
  have survivors : entries.filter (fun entry =>
      !entries.any (fun visited => erasesKey choose visited entry.1)) =
      entries.filter (fun entry =>
        !entries.any (fun visited => erasesKey other visited entry.1)) := by
    apply List.filter_congr
    intro entry _
    rw [Bool.eq_iff_iff, Bool.not_eq_true', Bool.not_eq_true', List.any_eq_false, List.any_eq_false]
    exact forall₂_congr (fun visited member => by rw [erases visited member])
  rw [result, result, survivors]
  apply List.map_congr_left
  intro entry member
  rw [settle, settle, same entry (List.mem_of_mem_filter member)]

theorem pairwise_result {relation : Key → Key → Prop} {entries : List (Key × Item)}
    (related : entries.Pairwise (fun earlier later => relation earlier.1 later.1)) :
    (result choose entries).Pairwise (fun earlier later => relation earlier.1 later.1) := by
  rw [result, List.pairwise_map]
  simpa only [settle_fst] using related.filter _

theorem act_append (action : Action Key Item) (cursor : Key) (front back : List (Key × Item)) :
    act action cursor (front ++ back) = act action cursor front ++ act action cursor back := by
  cases action with
  | erase victim => exact List.filter_append front back
  | rewrite item => exact List.map_append

theorem lookup_map {Other : Type w} (value : Item → Other) (entries : List (Key × Item)) (key : Key) :
    (entries.map (fun entry => (entry.1, value entry.2))).lookup key =
      (entries.lookup key).map value := by
  induction entries with
  | nil => rfl
  | cons entry rest ih =>
    rw [List.map_cons, List.lookup_cons, List.lookup_cons, ih]
    cases key == entry.1 <;> rfl

variable [LawfulBEq Key]

theorem mem_of_lookup {entries : List (Key × Item)} {key : Key} {item : Item}
    (found : entries.lookup key = some item) : (key, item) ∈ entries := by
  obtain ⟨front, back, parts, -⟩ := List.lookup_eq_some_iff.mp found
  rw [parts]
  exact List.mem_append_right front List.mem_cons_self

theorem lookup_eq_some_iff_mem {entries : List (Key × Item)}
    (distinct : entries.Pairwise (fun earlier later => earlier.1 ≠ later.1)) {key : Key}
    {item : Item} : entries.lookup key = some item ↔ (key, item) ∈ entries := by
  induction entries with
  | nil => simp
  | cons first rest ih =>
    obtain ⟨apart, later⟩ := List.pairwise_cons.mp distinct
    rw [List.lookup_cons, List.mem_cons]
    by_cases same : key = first.1
    · subst same
      have absent : (first.1, item) ∉ rest := fun member => apart _ member rfl
      simp [absent, Prod.ext_iff, eq_comm]
    · have other : (key, item) ≠ first := fun equal => same (congrArg Prod.fst equal)
      rw [beq_false_of_ne same, ih later]
      simp [other]

/-- A rewrite concerns the entry under the cursor only. -/
private theorem act_rewrite_apart {cursor : Key} {item : Item} {entries : List (Key × Item)}
    (apart : ∀ entry ∈ entries, entry.1 ≠ cursor) :
    act (.rewrite item) cursor entries = entries := by
  have untouched : ∀ entry ∈ entries,
      (entry.1, if entry.1 == cursor then item else entry.2) = entry := by
    intro entry member
    simp [apart entry member]
  rw [act, List.map_congr_left untouched, List.map_id']

private theorem act_concat {done : List (Key × Item)} {entry : Key × Item}
    (apart : ∀ visited ∈ done, visited.1 ≠ entry.1 ∧ erasesKey choose visited entry.1 = false) :
    act (choose entry.1 entry.2) entry.1 (result choose done ++ [entry]) =
      result choose (done ++ [entry]) := by
  have spared : done.any (fun visited => erasesKey choose visited entry.1) = false := by
    simpa using fun key item member => (apart (key, item) member).2
  cases action : choose entry.1 entry.2 with
  | erase victim =>
    have erases (key : Key) : erasesKey choose entry key = (victim == key) := by
      simp [erasesKey, action]
    have settled : settle choose entry = entry := by simp [settle, action]
    simp only [act, result, List.filter_append, List.any_append, List.any_cons, List.any_nil,
      Bool.or_false, erases, List.map_append, List.filter_map, List.filter_filter,
      Function.comp_def, settle_fst]
    congr 1
    · congr 2
      funext visited
      rw [Bool.not_or, Bool.and_comm, bne, Bool.beq_comm]
    · simp only [List.filter_cons, List.filter_nil, spared, Bool.false_or, bne, Bool.beq_comm]
      split <;> simp [settled]
  | rewrite item =>
    have erases (key : Key) : erasesKey choose entry key = false := by simp [erasesKey, action]
    have settled : settle choose entry = (entry.1, item) := by simp [settle, action]
    have others : act (.rewrite item) entry.1 (result choose done) = result choose done := by
      apply act_rewrite_apart
      intro visited member
      obtain ⟨before, present, -, rfl⟩ := mem_result.mp member
      simpa using (apart before present).1
    have under : act (.rewrite item) entry.1 [entry] = [settle choose entry] := by
      simp [act, settled]
    rw [act_append, others, under]
    simp [result, List.filter_append, erases, spared]

private theorem act_ahead {entry : Key × Item} {ahead : List (Key × Item)}
    (apart : ∀ later ∈ ahead, entry.1 ≠ later.1 ∧ erasesKey choose entry later.1 = false) :
    act (choose entry.1 entry.2) entry.1 ahead = ahead := by
  cases action : choose entry.1 entry.2 with
  | erase victim =>
    apply List.filter_eq_self.mpr
    intro later member
    have spared := (apart later member).2
    simp only [erasesKey, action, beq_eq_false_iff_ne] at spared
    simpa using Ne.symm spared
  | rewrite item => exact act_rewrite_apart (fun later member => Ne.symm (apart later member).1)

/-- The loop rule. A body that acts on the item it finds under the cursor leaves, after
all keys, the entries that no visit erases, each after its own visit. -/
theorem foldl_keys {visit : List (Key × Item) → Key → List (Key × Item)}
    (acts : ∀ entries key item, entries.lookup key = some item →
      visit entries key = act (choose key item) key entries)
    {entries : List (Key × Item)} (trailing : Trailing choose entries) :
    (entries.map Prod.fst).foldl visit entries = result choose entries := by
  -- `done` are the entries behind the cursor, as they were before the loop.
  have run (ahead : List (Key × Item)) : ∀ done, Trailing choose (done ++ ahead) →
      (ahead.map Prod.fst).foldl visit (result choose done ++ ahead) =
        result choose (done ++ ahead) := by
    induction ahead with
    | nil => simp
    | cons entry rest ih =>
      intro done apart
      obtain ⟨-, ahead, behind⟩ := List.pairwise_append.mp apart
      have found : (result choose done ++ entry :: rest).lookup entry.1 = some entry.2 := by
        rw [List.lookup_append, List.lookup_eq_none_iff.mpr, Option.none_or, List.lookup_cons_self]
        intro visited member
        obtain ⟨before, present, -, rfl⟩ := mem_result.mp member
        simpa using Ne.symm (behind before present entry List.mem_cons_self).1
      have visited : visit (result choose done ++ entry :: rest) entry.1 =
          result choose (done ++ [entry]) ++ rest := by
        rw [acts _ _ _ found, List.append_cons, act_append,
          act_ahead (List.pairwise_cons.mp ahead).1,
          act_concat (fun before present => behind before present entry List.mem_cons_self)]
      rw [List.map_cons, List.foldl_cons, visited, ih _ (by simpa using apart),
        List.append_assoc, List.singleton_append]
  exact run entries [] trailing

end Sweep
