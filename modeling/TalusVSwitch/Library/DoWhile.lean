import Mathlib.Order.Basic

/-! `do … while` loops as iterations of their body, and the rule by which a loop is shown
to end with a result. -/

namespace DoWhile

universe u v
variable {State : Type u} {Result : Type v}

/-- What one pass through the body comes to. -/
inductive Pass (State : Type u) (Result : Type v) where
  | again (state : State)
  | leave (result : Result)

variable (body : State → Pass State Result)

/-- A loop for at most so many passes; `none` where it has not ended by then. -/
def run : Nat → State → Option Result
  | 0, _ => none
  | passes + 1, state =>
    match body state with
    | .again next => run passes next
    | .leave result => some result

/-- A loop ends with a result: for enough passes, and all the more of them, that is it. -/
def Returns (state : State) (result : Result) : Prop :=
  ∃ enough, ∀ passes, enough ≤ passes → run body passes state = some result

variable {body}

theorem run_of_leave {state : State} {result : Result} (left : body state = .leave result)
    (passes : Nat) : run body (passes + 1) state = some result := by
  rw [run, left]

theorem run_of_again {state next : State} (more : body state = .again next) (passes : Nat) :
    run body (passes + 1) state = run body passes next := by
  rw [run, more]

theorem returns_of_leave {state : State} {result : Result} (left : body state = .leave result) :
    Returns body state result := by
  refine ⟨1, fun passes some => ?_⟩
  obtain ⟨further, rfl⟩ := Nat.exists_eq_add_of_le' some
  exact run_of_leave left further

theorem returns_of_again {state next : State} {result : Result} (more : body state = .again next)
    (later : Returns body next result) : Returns body state result := by
  obtain ⟨enough, ended⟩ := later
  refine ⟨enough + 1, fun passes most => ?_⟩
  obtain ⟨further, rfl⟩ := Nat.exists_eq_add_of_le' (Nat.le_trans (Nat.succ_pos _) most)
  rw [run_of_again more]
  exact ended further (Nat.le_of_succ_le_succ most)

/-- The rule of total correctness. A loop whose every further pass keeps an invariant and
lowers a measure ends, with what the last pass makes of the invariant. -/
theorem total {Holds : State → Prop} {Post : Result → Prop} (measure : State → Nat)
    (keeps : ∀ state next, Holds state → body state = .again next →
      Holds next ∧ measure next < measure state)
    (ends : ∀ state result, Holds state → body state = .leave result → Post result)
    {state : State} (start : Holds state) : ∃ result, Returns body state result ∧ Post result := by
  induction size : measure state using Nat.strongRecOn generalizing state with
  | _ bound ih =>
    cases pass : body state with
    | again next =>
      obtain ⟨still, lower⟩ := keeps state next start pass
      obtain ⟨result, later, post⟩ := ih (measure next) (size ▸ lower) still rfl
      exact ⟨result, returns_of_again pass later, post⟩
    | leave result => exact ⟨result, returns_of_leave pass, ends state result start pass⟩

end DoWhile
