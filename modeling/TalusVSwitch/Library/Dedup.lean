import Mathlib.Data.List.Basic
import Mathlib.Data.List.Pairwise
import Mathlib.Data.List.Perm.Basic

namespace Dedup

universe u v
variable {Item : Type u} {Label : Type v}

/-- Keep an item unless it clashes with one kept before. -/
def select (clash : Item → Item → Bool) (kept : List Item) : List Item → List Item
  | [] => []
  | item :: rest =>
    if kept.any (clash item) then select clash kept rest
    else item :: select clash (kept ++ [item]) rest

variable {clash : Item → Item → Bool}

theorem select_sublist (kept items : List Item) : (select clash kept items).Sublist items := by
  induction items generalizing kept with
  | nil => exact List.Sublist.refl []
  | cons item rest ih =>
    rw [select]
    split
    · exact (ih kept).cons item
    · exact (ih _).cons_cons item

theorem select_subset {item : Item} {kept items : List Item}
    (chosen : item ∈ select clash kept items) : item ∈ items :=
  (select_sublist kept items).subset chosen

theorem select_fresh {item earlier : Item} {kept items : List Item}
    (chosen : item ∈ select clash kept items) (before : earlier ∈ kept) :
    clash item earlier = false := by
  induction items generalizing kept with
  | nil => simp [select] at chosen
  | cons head rest ih =>
    rw [select] at chosen
    split at chosen
    · exact ih chosen before
    · rename_i clear
      rcases List.mem_cons.mp chosen with same | later
      · subst item
        simpa using (List.any_eq_false.mp (Bool.eq_false_iff.mpr clear)) earlier before
      · exact ih later (List.mem_append_left _ before)

theorem select_pairwise (kept items : List Item) :
    (select clash kept items).Pairwise (fun first second => clash second first = false) := by
  induction items generalizing kept with
  | nil => exact List.Pairwise.nil
  | cons item rest ih =>
    rw [select]
    split
    · exact ih kept
    · refine List.pairwise_cons.mpr ⟨?_, ih _⟩
      intro later chosen
      exact select_fresh chosen (by simp)

theorem select_apart (symmetric : ∀ one other, clash one other = clash other one)
    {kept items : List Item} {one other : Item} (first : one ∈ select clash kept items)
    (second : other ∈ select clash kept items) (distinct : one ≠ other) :
    clash one other = false := by
  have symm : Std.Symm (fun one other : Item => clash other one = false) :=
    ⟨fun one other clear => (symmetric one other).trans clear⟩
  exact (symmetric one other).trans ((select_pairwise kept items).forall first second distinct)

/-- Every item is selected or clashes with something kept or selected. -/
theorem select_covers {item : Item} {kept items : List Item} (member : item ∈ items) :
    item ∈ select clash kept items ∨
      ∃ other ∈ kept ++ select clash kept items, clash item other = true := by
  induction items generalizing kept with
  | nil => simp at member
  | cons head rest ih =>
    rw [select]
    split
    · rename_i blocked
      rcases List.mem_cons.mp member with same | later
      · subst item
        obtain ⟨other, before, clashes⟩ := List.any_eq_true.mp blocked
        exact .inr ⟨other, List.mem_append_left _ before, clashes⟩
      · exact ih later
    · rcases List.mem_cons.mp member with same | later
      · subst item
        exact .inl (List.mem_cons_self ..)
      · rcases @ih (kept ++ [head]) later with chosen | ⟨other, present, clashes⟩
        · exact .inl (List.mem_cons_of_mem _ chosen)
        · refine .inr ⟨other, ?_, clashes⟩
          simpa [List.append_assoc] using present

theorem select_countP_le_one (target : Item → Bool)
    (clique : ∀ one other, target one = true → target other = true → clash one other = true)
    (kept items : List Item) : (select clash kept items).countP target ≤ 1 := by
  rw [List.countP_eq_length_filter]
  have apart := (@select_pairwise _ clash kept items).filter target
  match chosen : (select clash kept items).filter target with
  | [] => exact Nat.zero_le 1
  | [_] => exact Nat.le_refl 1
  | first :: second :: rest =>
    have selected {item : Item} (member : item ∈ first :: second :: rest) : target item = true := by
      rw [← chosen] at member
      exact (List.mem_filter.mp member).2
    rw [chosen] at apart
    have clear := (List.pairwise_cons.mp apart).1 second (List.mem_cons_self ..)
    have clashes := clique second first
      (selected (List.mem_cons_of_mem _ (List.mem_cons_self ..))) (selected (List.mem_cons_self ..))
    rw [clear] at clashes
    cases clashes

/-- A class of the clash relation that is present is selected from exactly once. -/
theorem select_countP_eq_one (target : Item → Bool)
    (clique : ∀ one other, target one = true → target other = true → clash one other = true)
    {items : List Item} (closed : ∀ one other, other ∈ items → target one = true →
      clash one other = true → target other = true)
    (present : ∃ item ∈ items, target item = true) :
    (select clash [] items).countP target = 1 := by
  apply Nat.le_antisymm (select_countP_le_one target clique [] items)
  apply List.countP_pos_iff.mpr
  obtain ⟨item, member, selected⟩ := present
  rcases @select_covers _ clash _ [] _ member with chosen | ⟨other, chosen, clashes⟩
  · exact ⟨item, chosen, selected⟩
  · have otherChosen : other ∈ select clash [] items := by simpa using chosen
    exact ⟨other, otherChosen, closed item other (select_subset otherChosen) selected clashes⟩

/-- When clashing items carry one label, the labels selected are all the labels. -/
theorem select_labels (label : Item → Label) {items : List Item}
    (agree : ∀ one ∈ items, ∀ other ∈ items, clash one other = true → label one = label other)
    (target : Label) :
    target ∈ (select clash [] items).map label ↔ target ∈ items.map label := by
  constructor
  · intro chosen
    obtain ⟨item, present, same⟩ := List.mem_map.mp chosen
    exact List.mem_map.mpr ⟨item, select_subset present, same⟩
  · intro present
    obtain ⟨item, member, same⟩ := List.mem_map.mp present
    rcases @select_covers _ clash _ [] _ member with chosen | ⟨other, chosen, clashes⟩
    · exact List.mem_map.mpr ⟨item, chosen, same⟩
    · have otherChosen : other ∈ select clash [] items := by simpa using chosen
      have equal := agree item member other (select_subset otherChosen) clashes
      exact List.mem_map.mpr ⟨other, otherChosen, by rw [← equal, same]⟩

theorem select_head (item : Item) (rest : List Item) :
    select clash [] (item :: rest) = item :: select clash [item] rest := by
  simp [select]

theorem select_order_dependent (label : Item → Label) {one other : Item} {items : List Item}
    (oneMember : one ∈ items) (otherMember : other ∈ items)
    (different : label one ≠ label other)
    (blocked : ∀ item ∈ items, label item = label other → clash item one = true) :
    ∃ first second : List Item, first.Perm items ∧ second.Perm items ∧
      label other ∈ (select clash [] first).map label ∧
      label other ∉ (select clash [] second).map label := by
  obtain ⟨before, after, split⟩ := List.append_of_mem otherMember
  obtain ⟨before', after', split'⟩ := List.append_of_mem oneMember
  have firstPerm : (other :: (before ++ after)).Perm items := by
    rw [split]
    exact List.perm_middle.symm
  have secondPerm : (one :: (before' ++ after')).Perm items := by
    rw [split']
    exact List.perm_middle.symm
  refine ⟨_, _, firstPerm, secondPerm, ?_, ?_⟩
  · rw [select_head]
    exact List.mem_map.mpr ⟨other, List.mem_cons_self .., rfl⟩
  · rw [select_head]
    intro present
    obtain ⟨item, chosen, same⟩ := List.mem_map.mp present
    rcases List.mem_cons.mp chosen with own | later
    · subst item
      exact different same
    · have member : item ∈ items :=
        secondPerm.subset (List.mem_cons_of_mem _ (select_subset later))
      have clear := select_fresh later (List.mem_singleton.mpr rfl)
      rw [blocked item member same] at clear
      cases clear

end Dedup
