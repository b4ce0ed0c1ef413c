import Mathlib.Data.List.Basic

namespace Timers

universe u
variable {Task : Type u}

/-- The firings of a timer, each with the time and the task, when it is polled at these
times. A task that fires says by which deadline it is to fire again, and as what. -/
def firings (again : Nat → Task → Option (Nat × Task)) : Nat × Task → List Nat → List (Nat × Task)
  | _, [] => []
  | (deadline, task), now :: later =>
    if deadline ≤ now then
      (now, task) ::
        match again now task with
        | none => []
        | some next => firings again next later
    else firings again (deadline, task) later

variable {again : Nat → Task → Option (Nat × Task)} {deadline now : Nat} {task : Task}
  {later : List Nat}

theorem firings_early (early : now < deadline) :
    firings again (deadline, task) (now :: later) = firings again (deadline, task) later := by
  rw [firings, if_neg (Nat.not_le.mpr early)]

theorem firings_once (due : deadline ≤ now) (last : again now task = none) :
    firings again (deadline, task) (now :: later) = [(now, task)] := by
  rw [firings, if_pos due, last]

theorem firings_again (due : deadline ≤ now) {next : Nat × Task} (more : again now task = some next) :
    firings again (deadline, task) (now :: later) = (now, task) :: firings again next later := by
  rw [firings, if_pos due, more]

end Timers
