import Mathlib.Data.List.Basic
import Mathlib.Data.List.Infix

namespace Pieces

universe u
variable {Item : Type u} [BEq Item]

/-- The pieces between delimiters, without the empty ones. -/
def pieces (delim : Item) (items : List Item) : List (List Item) :=
  (items.splitOn delim).filter (fun piece => !piece.isEmpty)

variable {delim : Item}

@[simp] theorem pieces_nil : pieces delim [] = [] := rfl

variable [LawfulBEq Item]

theorem pieces_append_cons (front back : List Item) :
    pieces delim (front ++ delim :: back) = pieces delim front ++ pieces delim back := by
  simp only [pieces, List.splitOn_append_cons_self, List.filter_append]

theorem pieces_of_notMem {items : List Item} (absent : delim ∉ items) (nonempty : items ≠ []) :
    pieces delim items = [items] := by
  simp [pieces, List.splitOn_eq_singleton absent, nonempty]

/-- Every list is one piece, or a piece, a delimiter and a shorter list. -/
theorem induction {motive : List Item → Prop} (delim : Item)
    (last : ∀ piece, delim ∉ piece → motive piece)
    (cut : ∀ piece back, delim ∉ piece → motive back → motive (piece ++ delim :: back))
    (items : List Item) : motive items := by
  classical
  induction hlen : items.length using Nat.strong_induction_on generalizing items with
  | _ length ih =>
    by_cases present : delim ∈ items
    · obtain ⟨piece, back, rfl, absent⟩ := List.eq_append_cons_of_mem present
      refine cut piece back absent (ih back.length ?_ back rfl)
      rw [← hlen, List.length_append, List.length_cons]
      omega
    · exact last items present

theorem pieces_cut {piece : List Item} (absent : delim ∉ piece) (back : List Item) :
    pieces delim (piece ++ delim :: back) =
      (if piece.isEmpty then [] else [piece]) ++ pieces delim back := by
  rw [pieces_append_cons]
  cases piece with
  | nil => rfl
  | cons head tail => simp [pieces_of_notMem absent]

theorem mem_pieces {piece items : List Item} (member : piece ∈ pieces delim items) :
    piece ≠ [] ∧ delim ∉ piece ∧ piece <:+: items := by
  induction items using induction delim with
  | last whole absent =>
    cases whole with
    | nil => simp at member
    | cons head tail =>
      rw [pieces_of_notMem absent (List.cons_ne_nil _ _), List.mem_singleton] at member
      subst member
      exact ⟨List.cons_ne_nil _ _, absent, List.infix_rfl⟩
  | cut front back absent ih =>
    rw [pieces_cut absent, List.mem_append] at member
    rcases member with first | later
    · split at first
      · simp at first
      · rename_i nonempty
        rw [List.mem_singleton] at first
        subst first
        exact ⟨by simpa using nonempty, absent, (List.prefix_append ..).isInfix⟩
    · obtain ⟨nonempty, apart, inside⟩ := ih later
      exact ⟨nonempty, apart, inside.trans
        ((List.suffix_cons delim back).trans (List.suffix_append front _)).isInfix⟩

theorem pieces_ne_nil {item : Item} {items : List Item} (member : item ∈ items)
    (other : item ≠ delim) : pieces delim items ≠ [] := by
  induction items using induction delim with
  | last whole absent =>
    rw [pieces_of_notMem absent (List.ne_nil_of_mem member)]
    exact List.cons_ne_nil _ _
  | cut front back absent ih =>
    rw [pieces_cut absent]
    rcases List.mem_append.mp member with first | later
    · simp [List.ne_nil_of_mem first]
    · simp [ih ((List.mem_cons.mp later).resolve_left other)]

/-- Pieces that are each followed by a delimiter come apart again. -/
theorem pieces_flatMap {parts : List (List Item)}
    (apart : ∀ part ∈ parts, part ≠ [] ∧ delim ∉ part) (back : List Item) :
    pieces delim (parts.flatMap (fun part => part ++ [delim]) ++ back) =
      parts ++ pieces delim back := by
  induction parts with
  | nil => rfl
  | cons part rest ih =>
    obtain ⟨nonempty, absent⟩ := apart part (List.mem_cons_self ..)
    have shape : (part :: rest).flatMap (fun part => part ++ [delim]) ++ back =
        part ++ delim :: (rest.flatMap (fun part => part ++ [delim]) ++ back) := by
      simp
    rw [shape, pieces_append_cons, pieces_of_notMem absent nonempty,
      ih (fun other member => apart other (List.mem_cons_of_mem _ member))]
    rfl

/-- Pieces with a delimiter between each two come apart again. -/
theorem pieces_intercalate {parts : List (List Item)}
    (apart : ∀ part ∈ parts, part ≠ [] ∧ delim ∉ part) :
    pieces delim ([delim].intercalate parts) = parts := by
  cases parts with
  | nil => rfl
  | cons part rest =>
    rw [pieces, List.splitOn_intercalate delim (fun other member => (apart other member).2)
      (List.cons_ne_nil _ _)]
    apply List.filter_eq_self.mpr
    intro other member
    simpa using (apart other member).1

omit [BEq Item] [LawfulBEq Item] in
theorem notMem_intercalate {item : Item} {parts : List (List Item)}
    (absent : ∀ part ∈ parts, item ∉ part) (other : item ≠ delim) :
    item ∉ [delim].intercalate parts := by
  induction parts with
  | nil => exact List.not_mem_nil
  | cons part rest ih =>
    have first := absent part (List.mem_cons_self ..)
    cases rest with
    | nil => simpa using first
    | cons next others =>
      rw [List.intercalate_cons_cons]
      simp only [List.mem_append, List.mem_singleton, not_or]
      exact ⟨⟨first, other⟩, ih (fun part member => absent part (List.mem_cons_of_mem _ member))⟩

end Pieces
