import Mathlib.Data.List.Basic

/-! A loop over a list that the first stopping item ends, and when what the items
yield is all yielded nevertheless. -/

namespace Interrupted

universe u v
variable {Item : Type u} {Effect : Type v}

/-- An item with nothing that stops before it. -/
def Reached (stops : Item → Prop) (items : List Item) (item : Item) : Prop :=
  ∃ front back, items = front ++ item :: back ∧ ∀ earlier ∈ front, ¬ stops earlier

variable {stops : Item → Prop} {yields : Item → Effect → Prop}

theorem reached_cons {head item : Item} {rest : List Item} :
    Reached stops (head :: rest) item ↔ item = head ∨ (¬ stops head ∧ Reached stops rest item) := by
  constructor
  · rintro ⟨front, back, split, clear⟩
    cases front with
    | nil => exact .inl (List.cons.inj split).1.symm
    | cons first more =>
      obtain ⟨rfl, same⟩ := List.cons.inj split
      obtain ⟨here, later⟩ := List.forall_mem_cons.mp clear
      exact .inr ⟨here, more, back, same, later⟩
  · rintro (rfl | ⟨here, front, back, rfl, clear⟩)
    · exact ⟨[], rest, rfl, fun earlier member => absurd member List.not_mem_nil⟩
    · exact ⟨head :: front, back, rfl, List.forall_mem_cons.mpr ⟨here, clear⟩⟩

theorem reached_or_stopped (stops : Item → Prop) (items : List Item) :
    (∀ item ∈ items, Reached stops items item) ∨
      ∃ front bad back, items = front ++ bad :: back ∧ stops bad ∧
        ∀ item ∈ front, Reached stops items item := by
  classical
  induction items with
  | nil => exact .inl fun item member => absurd member List.not_mem_nil
  | cons head rest ih =>
    by_cases here : stops head
    · exact .inr ⟨[], head, rest, rfl, here, fun item member => absurd member List.not_mem_nil⟩
    · rcases ih with every | ⟨front, bad, back, rfl, stop, before⟩
      · left
        intro item member
        rcases List.mem_cons.mp member with same | later
        · exact reached_cons.mpr (.inl same)
        · exact reached_cons.mpr (.inr ⟨here, every item later⟩)
      · right
        refine ⟨head :: front, bad, back, rfl, stop, ?_⟩
        intro item member
        rcases List.mem_cons.mp member with same | later
        · exact reached_cons.mpr (.inl same)
        · exact reached_cons.mpr (.inr ⟨here, before item later⟩)

theorem mem_of_reached {front back : List Item} {bad item : Item} (stop : stops bad)
    (alive : ¬ stops item) (reached : Reached stops (front ++ bad :: back) item) : item ∈ front := by
  induction front with
  | nil =>
    rcases reached_cons.mp reached with rfl | ⟨clear, _⟩
    · exact absurd stop alive
    · exact absurd stop clear
  | cons head rest ih =>
    rcases reached_cons.mp reached with rfl | ⟨_, later⟩
    · exact List.mem_cons_self ..
    · exact List.mem_cons_of_mem _ (ih later)

/-- The interrupted loop yields all that the items yield exactly when everything yielded
behind a stopping item is yielded before it too. -/
theorem yields_all_iff (exclusive : ∀ item effect, stops item → ¬ yields item effect)
    (items : List Item) :
    (∀ effect, (∃ item, Reached stops items item ∧ yields item effect) ↔
        ∃ item ∈ items, yields item effect) ↔
      ∀ front bad back, items = front ++ bad :: back → stops bad → ∀ later ∈ back, ∀ effect,
        yields later effect → ∃ earlier ∈ front, yields earlier effect := by
  constructor
  · rintro all front bad back rfl stop later member effect asked
    obtain ⟨item, reached, yielded⟩ := (all effect).mpr ⟨later, by simp [member], asked⟩
    exact ⟨item, mem_of_reached stop (fun stopped => exclusive item effect stopped yielded) reached,
      yielded⟩
  · intro repeated effect
    constructor
    · rintro ⟨item, ⟨front, back, rfl, _⟩, yielded⟩
      exact ⟨item, by simp, yielded⟩
    · rintro ⟨item, member, yielded⟩
      rcases reached_or_stopped stops items with every | ⟨front, bad, back, split, stop, before⟩
      · exact ⟨item, every item member, yielded⟩
      · have early : ∃ earlier ∈ front, yields earlier effect := by
          rw [split] at member
          rcases List.mem_append.mp member with first | others
          · exact ⟨item, first, yielded⟩
          · rcases List.mem_cons.mp others with same | later
            · exact absurd yielded (exclusive item effect (same ▸ stop))
            · exact repeated front bad back split stop item later effect yielded
        obtain ⟨earlier, first, asked⟩ := early
        exact ⟨earlier, before earlier first, asked⟩

end Interrupted
