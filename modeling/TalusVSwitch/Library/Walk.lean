import Mathlib.Data.List.Basic

namespace Walk

universe u
variable {Node : Type u} (hop : Node → Option Node) (stop : Node → Prop) [DecidablePred stop]

/-- Where so many hops lead. -/
def hops : Nat → Node → Option Node
  | 0, node => some node
  | count + 1, node => (hop node).bind (hops count)

/-- The first node to stop at, if there are hops enough to get there. -/
def reach : Nat → Node → Option Node
  | 0, node => if stop node then some node else none
  | fuel + 1, node => if stop node then some node else (hop node).bind (reach fuel)

variable {hop stop} {fuel : Nat} {node goal : Node}

theorem reach_of_stop (here : stop node) : reach hop stop fuel node = some node := by
  cases fuel <;> rw [reach, if_pos here]

theorem reach_zero (further : ¬ stop node) : reach hop stop 0 node = none := by
  rw [reach, if_neg further]

theorem reach_succ (further : ¬ stop node) :
    reach hop stop (fuel + 1) node = (hop node).bind (reach hop stop fuel) := by
  rw [reach, if_neg further]

/-- What is reached is some number of hops away, with no stop before it. -/
theorem reach_eq_some_iff : reach hop stop fuel node = some goal ↔
    stop goal ∧ ∃ count ≤ fuel, hops hop count node = some goal ∧
      ∀ fewer < count, ∀ other, hops hop fewer node = some other → ¬ stop other := by
  induction fuel generalizing node with
  | zero =>
    by_cases here : stop node
    · rw [reach_of_stop here]
      constructor
      · rintro ⟨⟩
        exact ⟨here, 0, Nat.le_refl 0, rfl, fun _ none => absurd none (Nat.not_lt_zero _)⟩
      · rintro ⟨_, count, few, led, _⟩
        rw [Nat.le_zero.mp few] at led
        exact led
    · rw [reach_zero here]
      constructor
      · rintro ⟨⟩
      · rintro ⟨stopped, count, few, led, _⟩
        rw [Nat.le_zero.mp few] at led
        cases led
        exact absurd stopped here
  | succ fuel ih =>
    by_cases here : stop node
    · rw [reach_of_stop here]
      constructor
      · rintro ⟨⟩
        exact ⟨here, 0, Nat.zero_le _, rfl, fun _ none => absurd none (Nat.not_lt_zero _)⟩
      · rintro ⟨_, count, _, led, first⟩
        cases count with
        | zero => exact led
        | succ count => exact absurd here (first 0 (Nat.succ_pos _) node rfl)
    · rw [reach_succ here, Option.bind_eq_some_iff]
      constructor
      · rintro ⟨next, hopped, reached⟩
        obtain ⟨stopped, count, few, led, first⟩ := ih.mp reached
        refine ⟨stopped, count + 1, Nat.succ_le_succ few, by rw [hops, hopped]; exact led, ?_⟩
        intro fewer less other there
        cases fewer with
        | zero =>
          cases there
          exact here
        | succ fewer =>
          rw [hops, hopped] at there
          exact first fewer (Nat.lt_of_succ_lt_succ less) other there
      · rintro ⟨stopped, count, few, led, first⟩
        cases count with
        | zero =>
          cases led
          exact absurd stopped here
        | succ count =>
          rw [hops] at led
          obtain ⟨next, hopped, led⟩ := Option.bind_eq_some_iff.mp led
          refine ⟨next, hopped, ih.mpr ⟨stopped, count, Nat.le_of_succ_le_succ few, led, ?_⟩⟩
          intro fewer less other there
          exact first (fewer + 1) (Nat.succ_lt_succ less) other (by rw [hops, hopped]; exact there)

/-- Where every node that has a height leads to the goal or to a greater one, and none is above
the top, the goal is no more hops away than there is height to gain. -/
theorem hops_of_climbs {height : Node → Option Nat} {top : Nat}
    (climbs : ∀ node low, height node = some low → low ≤ top ∧ ∃ next, hop node = some next ∧
      (next = goal ∨ ∃ high, height next = some high ∧ low < high)) {node : Node} {low : Nat}
    (here : height node = some low) :
    ∃ count, 0 < count ∧ count + low ≤ top + 1 ∧ hops hop count node = some goal := by
  induction gain : top - low using Nat.strongRecOn generalizing node low with
  | ind gain ih =>
    obtain ⟨below, next, hopped, rfl | ⟨high, there, higher⟩⟩ := climbs node low here
    · exact ⟨1, Nat.one_pos, by omega, by simp [hops, hopped]⟩
    · have limit := (climbs next high there).1
      obtain ⟨count, _, few, led⟩ := ih (top - high) (by omega) there rfl
      exact ⟨count + 1, Nat.succ_pos count, by omega, by rw [hops, hopped]; exact led⟩

end Walk
