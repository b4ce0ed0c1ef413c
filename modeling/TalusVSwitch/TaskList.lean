import TalusVSwitch.Library.Execution
import TalusVSwitch.Library.DoWhile

/-! The tasks other threads hand to a poller: `async_l` puts them on a list and writes to a
pipe, and `onPipeEvent` empties the pipe before it takes the list. -/

namespace TalusVSwitch

universe u

namespace EventPoller

/-- Where a poller's loop is, apart from its other events. -/
inductive Phase (Task : Type u) where
  | waiting
  /-- In the read loop of `onPipeEvent`. -/
  | reading
  /-- The pipe was read empty, the list is not yet taken. -/
  | drained
  | running (_list_swap : List Task)

/-- The list with its pipe, and the threads between unlocking the one and writing to the
other. The pipe is watched edge-triggered: `edge` is one that `epoll_wait` has not seen. -/
structure TaskList (Task : Type u) where
  _list_task : List Task
  writers : Nat
  pipe : Nat
  edge : Bool
  phase : Phase Task
  ran : List Task

inductive TaskEvent (Task : Type u) where
  /-- The locked section of `async_l`. -/
  | async_l (task : Task) (first : Bool)
  | write
  | epoll_wait
  | read
  | swap
  | runTask

namespace TaskList

variable {Task : Type u} (capacity : Nat)

def start : TaskList Task := ⟨[], 0, 0, false, .waiting, []⟩

/-- One step of some thread; the state where the thread is not at that step. -/
def step (state : TaskList Task) : TaskEvent Task → TaskList Task
  | .async_l task first =>
    { state with
      _list_task := if first then task :: state._list_task else state._list_task ++ [task]
      writers := state.writers + 1 }
  | .write =>
    if state.writers = 0 then state
    else if state.pipe < capacity then
      { state with
        writers := state.writers - 1
        pipe := state.pipe + 1
        edge := state.edge || state.pipe == 0 }
    -- a full pipe refuses the byte
    else { state with writers := state.writers - 1 }
  | .epoll_wait =>
    match state.phase with
    | .waiting =>
      if state.edge then
        { state with
          edge := false
          phase := if state.pipe = 0 then .waiting else .reading }
      else state
    | _ => state
  | .read =>
    match state.phase with
    | .reading =>
      if state.pipe = 0 then { state with phase := .drained }
      else { state with pipe := state.pipe - 1024 }
    | _ => state
  | .swap =>
    match state.phase with
    | .drained => { state with _list_task := [], phase := .running state._list_task }
    | _ => state
  | .runTask =>
    match state.phase with
    | .running [] => { state with phase := .waiting }
    | .running (task :: rest) => { state with phase := .running rest, ran := state.ran ++ [task] }
    | _ => state

/-- The loop's own next step, until it blocks in `epoll_wait`. -/
def loop (state : TaskList Task) : DoWhile.Pass (TaskList Task) (TaskList Task) :=
  match state.phase with
  | .waiting => if state.edge then .again (step capacity state .epoll_wait) else .leave state
  | .reading => .again (step capacity state .read)
  | .drained => .again (step capacity state .swap)
  | .running _ => .again (step capacity state .runTask)

/-- The tasks taken off the list and not yet run. -/
def swapped (state : TaskList Task) : List Task :=
  match state.phase with
  | .running _list_swap => _list_swap
  | _ => []

/-- All tasks there are: run, being run, and listed. -/
def tasks (state : TaskList Task) : List Task := state.ran ++ (state.swapped ++ state._list_task)

/-- The tasks handed over in a run. -/
def handed : List (TaskEvent Task) → List Task :=
  List.filterMap (fun event =>
    match event with
    | .async_l task _ => some task
    | _ => none)

/-- What keeps a poller from sleeping over its list. -/
structure Awake (state : TaskList Task) : Prop where
  /-- A byte in the pipe comes with an edge, but for those the read loop is to find. -/
  edge : state.pipe ≠ 0 → state.edge = true ∨ state.phase = .reading
  listed : state._list_task ≠ [] →
    state.writers ≠ 0 ∨ state.pipe ≠ 0 ∨ state.phase = .reading ∨ state.phase = .drained

variable {capacity} {state : TaskList Task}

theorem awake_start : Awake (start : TaskList Task) :=
  ⟨fun some => absurd rfl some, fun some => absurd rfl some⟩

theorem awake_step (room : 0 < capacity) (state : TaskList Task) (event : TaskEvent Task)
    (awake : Awake state) : Awake (step capacity state event) := by
  obtain ⟨edge, listed⟩ := awake
  obtain ⟨list, writers, pipe, seen, phase, ran⟩ := state
  dsimp only at edge listed
  cases event with
  | async_l task first => exact ⟨edge, fun _ => .inl (Nat.succ_ne_zero writers)⟩
  | write =>
    simp only [step]
    split_ifs with none space
    · exact ⟨edge, listed⟩
    · refine ⟨fun _ => ?_, fun _ => .inr (.inl (Nat.succ_ne_zero pipe))⟩
      by_cases empty : pipe = 0
      · exact .inl (by simp [empty])
      · rcases edge empty with pending | reading
        · exact .inl (by simp [pending])
        · exact .inr reading
    · exact ⟨edge, fun _ => .inr (.inl (by dsimp only; omega))⟩
  | epoll_wait =>
    cases phase with
    | waiting =>
      simp only [step]
      split_ifs with pending empty
      · refine ⟨fun some => absurd empty some, fun some => ?_⟩
        rcases listed some with writer | byte | at_read | at_swap
        · exact .inl writer
        · exact absurd empty byte
        · cases at_read
        · cases at_swap
      · exact ⟨fun _ => .inr rfl, fun _ => .inr (.inr (.inl rfl))⟩
      · exact ⟨edge, listed⟩
    | reading | drained | running => exact ⟨edge, listed⟩
  | read =>
    cases phase with
    | reading =>
      simp only [step]
      split_ifs with empty
      · exact ⟨fun some => absurd empty some, fun _ => .inr (.inr (.inr rfl))⟩
      · exact ⟨fun _ => .inr rfl, fun _ => .inr (.inr (.inl rfl))⟩
    | waiting | drained | running => exact ⟨edge, listed⟩
  | swap =>
    cases phase with
    | drained =>
      refine ⟨fun some => ?_, fun some => absurd rfl some⟩
      rcases edge some with pending | at_read
      · exact .inl pending
      · cases at_read
    | waiting | reading | running => exact ⟨edge, listed⟩
  | runTask =>
    cases phase with
    | running _list_swap =>
      have unlisted (next : Phase Task) : Awake ⟨list, writers, pipe, seen, next, ran⟩ := by
        refine ⟨fun some => ?_, fun some => ?_⟩
        · rcases edge some with pending | at_read
          · exact .inl pending
          · cases at_read
        · rcases listed some with writer | byte | at_read | at_swap
          · exact .inl writer
          · exact .inr (.inl byte)
          · cases at_read
          · cases at_swap
      cases _list_swap with
      | nil => exact unlisted .waiting
      | cons task rest =>
        have moved := unlisted (.running rest)
        exact ⟨moved.edge, moved.listed⟩
    | waiting | reading | drained => exact ⟨edge, listed⟩

theorem tasks_step {event : TaskEvent Task} (own : ∀ task first, event ≠ .async_l task first) :
    (step capacity state event).tasks = state.tasks := by
  obtain ⟨list, writers, pipe, seen, phase, ran⟩ := state
  cases event with
  | async_l task first => exact absurd rfl (own task first)
  | write =>
    simp only [step]
    split_ifs <;> rfl
  | epoll_wait =>
    cases phase with
    | waiting =>
      simp only [step]
      split_ifs <;> rfl
    | reading | drained | running => rfl
  | read =>
    cases phase with
    | reading =>
      simp only [step]
      split_ifs <;> simp only [tasks, swapped]
    | waiting | drained | running => rfl
  | swap => cases phase <;> simp [step, tasks, swapped]
  | runTask =>
    cases phase with
    | running _list_swap => cases _list_swap <;> simp [step, tasks, swapped]
    | waiting | reading | drained => rfl

theorem tasks_async_l (task : Task) (first : Bool) :
    (step capacity state (.async_l task first)).tasks.Perm (task :: state.tasks) := by
  simp only [step, tasks]
  have same : (TaskList.mk (if first = true then task :: state._list_task else
      state._list_task ++ [task]) (state.writers + 1) state.pipe state.edge state.phase
        state.ran).swapped = state.swapped := rfl
  rw [same]
  rw [← List.append_assoc, ← List.append_assoc]
  cases first with
  | true => exact List.perm_middle
  | false =>
    rw [if_neg Bool.false_ne_true, ← List.append_assoc]
    exact List.perm_append_singleton _ _

theorem tasks_run (events : List (TaskEvent Task)) (state : TaskList Task) :
    (Execution.run (step capacity) state events).tasks.Perm (handed events ++ state.tasks) := by
  induction events generalizing state with
  | nil => exact .refl _
  | cons event rest ih =>
    rw [Execution.run_cons]
    refine (ih _).trans ?_
    cases event with
    | async_l task first =>
      simp only [handed, List.filterMap_cons, List.cons_append]
      exact ((tasks_async_l task first).append_left _).trans List.perm_middle
    | write | epoll_wait | read | swap | runTask =>
      rw [tasks_step (by intro task first same; cases same)]
      exact .refl _

/-- Without `async_first` they are in the order they were handed over. -/
theorem tasks_run_back (events : List (TaskEvent Task)) (state : TaskList Task)
    (back : ∀ task, .async_l task true ∉ events) :
    (Execution.run (step capacity) state events).tasks = state.tasks ++ handed events := by
  induction events generalizing state with
  | nil => exact (List.append_nil _).symm
  | cons event rest ih =>
    have later : ∀ task, TaskEvent.async_l task true ∉ rest :=
      fun task member => back task (List.mem_cons_of_mem _ member)
    rw [Execution.run_cons, ih _ later]
    cases event with
    | async_l task first =>
      cases first with
      | true => exact absurd List.mem_cons_self (back task)
      | false =>
        simp only [handed, List.filterMap_cons]
        simp [step, tasks, swapped]
    | write | epoll_wait | read | swap | runTask =>
      rw [tasks_step (by intro task first same; cases same)]
      rfl

/-- What the loop has still to do before it blocks. -/
def work (state : TaskList Task) : Nat :=
  let again := if state.pipe = 0 then 0 else 4
  let edge := if state.edge then 1 else 0
  state.pipe + 2 * state._list_task.length + edge +
    match state.phase with
    | .waiting => again
    | .reading => 3
    | .drained => 2 + again
    | .running _list_swap => _list_swap.length + 1 + again

theorem loop_again {next : TaskList Task} (more : loop capacity state = .again next) :
    ∃ event, (∀ task first, event ≠ TaskEvent.async_l task first) ∧
      next = step capacity state event ∧ next.writers = state.writers ∧ work next < work state := by
  obtain ⟨list, writers, pipe, edge, phase, ran⟩ := state
  cases phase with
  | waiting =>
    cases edge with
    | false => cases more
    | true =>
      cases more
      refine ⟨.epoll_wait, (by intro task first same; cases same), rfl, rfl, ?_⟩
      by_cases empty : pipe = 0 <;> simp [step, work, empty]
  | reading =>
    cases more
    refine ⟨.read, (by intro task first same; cases same), rfl, ?_, ?_⟩
    · simp only [step]
      split_ifs <;> rfl
    · by_cases empty : pipe = 0
      · simp [step, work, empty]
      · simp only [step, empty, if_false, work]
        omega
  | drained =>
    cases more
    refine ⟨.swap, (by intro task first same; cases same), rfl, rfl, ?_⟩
    dsimp only [step, work, List.length_nil]
    omega
  | running _list_swap =>
    cases more
    refine ⟨.runTask, (by intro task first same; cases same), rfl, ?_, ?_⟩
    · cases _list_swap <;> rfl
    · cases _list_swap with
      | nil =>
        dsimp only [step, work, List.length_nil]
        omega
      | cons task rest =>
        dsimp only [step, work, List.length_cons]
        omega

/-- No task handed to a poller is lost, run twice or slept over. After every interleaving
of threads that hand over tasks with the poller's own steps, once every such thread has
written to the pipe, the loop alone runs on until it blocks, and then every task handed over
has been run once; those handed over with `async` alone, in the order they came. -/
theorem async_runs_all {capacity : Nat} (room : 0 < capacity) (events : List (TaskEvent Task))
    (written : (Execution.run (step capacity) start events).writers = 0) :
    ∃ rest, DoWhile.Returns (loop capacity) (Execution.run (step capacity) start events) rest ∧
      rest.ran.Perm (handed events) ∧
      ((∀ task, .async_l task true ∉ events) → rest.ran = handed events) := by
  have awake := Execution.run_invariant (awake_step room) awake_start events
  have whole := @tasks_run _ capacity events start
  have ordered := @tasks_run_back _ capacity events start
  generalize Execution.run (step capacity) start events = state at written awake whole ordered ⊢
  have keeps : ∀ current next : TaskList Task,
      (Awake current ∧ current.writers = 0 ∧ current.tasks = state.tasks) →
      loop capacity current = .again next →
      (Awake next ∧ next.writers = 0 ∧ next.tasks = state.tasks) ∧ work next < work current := by
    rintro current next ⟨still, idle, same⟩ more
    obtain ⟨event, own, rfl, writers, less⟩ := loop_again more
    exact ⟨⟨awake_step room current event still, writers.trans idle, (tasks_step own).trans same⟩, less⟩
  have ends : ∀ current rest : TaskList Task,
      (Awake current ∧ current.writers = 0 ∧ current.tasks = state.tasks) →
      loop capacity current = .leave rest → rest.ran = state.tasks := by
    rintro ⟨list, writers, pipe, edge, phase, ran⟩ rest ⟨still, idle, same⟩ left
    cases phase with
    | waiting =>
      cases edge with
      | true => cases left
      | false =>
        cases left
        have dry : pipe = 0 := by
          by_contra some
          rcases still.edge some with pending | at_read
          · cases pending
          · cases at_read
        have none : list = [] := by
          by_contra some
          rcases still.listed some with writer | byte | at_read | at_swap
          · exact writer idle
          · exact byte dry
          · cases at_read
          · cases at_swap
        rw [← same]
        simp [tasks, swapped, none]
    | reading | drained | running => cases left
  obtain ⟨rest, returns, ran⟩ := DoWhile.total work keeps ends ⟨awake, written, rfl⟩
  refine ⟨rest, returns, ?_, fun back => ?_⟩
  · rw [ran]
    simpa [start, tasks, swapped] using whole
  · rw [ran, ordered back]
    simp [start, tasks, swapped]

/-- A task that comes between the last read of the pipe and the swap, and writes after it. -/
theorem async_runs_all_late :
    let events : List (TaskEvent Bool) :=
      [.async_l true false, .write, .epoll_wait, .read, .read, .async_l false false, .swap, .write]
    ∃ rest, DoWhile.Returns (loop 1) (Execution.run (step 1) start events) rest ∧
      rest.ran = handed events := by
  intro events
  obtain ⟨rest, returns, -, ordered⟩ := async_runs_all Nat.one_pos events rfl
  exact ⟨rest, returns, ordered (by simp [events])⟩

end TaskList

end EventPoller

end TalusVSwitch
