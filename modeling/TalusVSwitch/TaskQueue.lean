import TalusVSwitch.Library.Execution

/-! `TaskQueue.h` under the threads of a `ThreadPool`: a list under a mutex, and a semaphore
that is posted behind it. -/

namespace TalusVSwitch

universe u

/-- Where a thread of the pool is. -/
inductive Worker (Task : Type u) where
  /-- Before `_sem.wait` in `get_task`. -/
  | waiting
  /-- Before the lock in `get_task`. -/
  | taking
  | running (task : Task)
  | exited

/-- Whether a thread cannot go on. -/
def Worker.blocked {Task : Type u} (_count : Nat) : Worker Task → Bool
  | .waiting => _count == 0
  | .exited => true
  | .taking | .running _ => false

/-- A pool with its queue, the threads that have pushed a task and are still to post, and
the tasks taken so far. -/
structure ThreadPool (Task : Type u) where
  _queue : List Task
  posting : Nat
  _count : Nat
  workers : List (Worker Task)
  /-- What `push_exit` has posted. -/
  exits : Nat
  taken : List Task

inductive PoolEvent (Task : Type u) where
  /-- The locked section of `push_task` or `push_task_first`. -/
  | push_task (task : Task) (first : Bool)
  | post
  | shutdown
  /-- The next step of one of the pool's threads. -/
  | worker (index : Nat)

namespace ThreadPool

variable {Task : Type u}

def start (_thread_num : Nat) : ThreadPool Task :=
  ⟨[], 0, 0, List.replicate _thread_num .waiting, 0, []⟩

/-- What a thread does next: pass the semaphore, take a task or exit without one, or be done
with its task. -/
def advance (pool : ThreadPool Task) (index : Nat) : Worker Task → ThreadPool Task
  | .waiting =>
    if pool._count = 0 then pool
    else { pool with _count := pool._count - 1, workers := pool.workers.set index .taking }
  | .taking =>
    match pool._queue with
    | [] => { pool with workers := pool.workers.set index .exited }
    | task :: rest =>
      { pool with
        _queue := rest
        workers := pool.workers.set index (.running task)
        taken := pool.taken ++ [task] }
  | .running _ => { pool with workers := pool.workers.set index .waiting }
  | .exited => pool

def step (pool : ThreadPool Task) : PoolEvent Task → ThreadPool Task
  | .push_task task first =>
    { pool with
      _queue := if first then task :: pool._queue else pool._queue ++ [task]
      posting := pool.posting + 1 }
  | .post =>
    if pool.posting = 0 then pool
    else { pool with posting := pool.posting - 1, _count := pool._count + 1 }
  | .shutdown =>
    { pool with
      _count := pool._count + pool.workers.length
      exits := pool.exits + pool.workers.length }
  | .worker index =>
    match pool.workers[index]? with
    | none => pool
    | some worker => advance pool index worker

/-- The tasks pushed in a run. -/
def pushed : List (PoolEvent Task) → List Task :=
  List.filterMap (fun event =>
    match event with
    | .push_task task _ => some task
    | _ => none)

/-- How many threads are at the lock, and how many are gone. -/
def atLock : Worker Task → Bool
  | .taking => true
  | _ => false

def gone : Worker Task → Bool
  | .exited => true
  | _ => false

/-- Nobody pushes to a pool that is shut down, and it is shut down once. -/
def InUse (pool : ThreadPool Task) : PoolEvent Task → Prop
  | .push_task .. | .shutdown => pool.exits = 0
  | _ => True

/-- What the semaphore counts. -/
structure Balanced (pool : ThreadPool Task) : Prop where
  counted : pool._count + pool.workers.countP atLock + pool.posting + pool.workers.countP gone =
    pool._queue.length + pool.exits
  gone_le : pool.workers.countP gone ≤ pool.exits
  emptied : pool.workers.countP gone ≠ 0 → pool._queue = []
  exits : pool.exits = 0 ∨ pool.exits = pool.workers.length

variable {pool : ThreadPool Task}

theorem countP_moved {workers : List (Worker Task)} {index : Nat} {before : Worker Task}
    (at_index : workers[index]? = some before) (after : Worker Task) (test : Worker Task → Bool) :
    (workers.set index after).countP test + (if test before then 1 else 0) =
      workers.countP test + (if test after then 1 else 0) := by
  obtain ⟨below, same⟩ := List.getElem?_eq_some_iff.mp at_index
  have some : test workers[index] = true → 0 < workers.countP test := fun holds =>
    List.countP_pos_iff.mpr ⟨_, List.getElem_mem below, holds⟩
  rw [List.countP_set below, ← same]
  cases was : test workers[index] with
  | true =>
    have one := some was
    simp only [if_true]
    omega
  | false =>
    simp only [Bool.false_eq_true, if_false]
    omega

theorem balanced_start (_thread_num : Nat) : Balanced (start _thread_num : ThreadPool Task) where
  counted := by simp [start, atLock, gone, List.countP_replicate]
  gone_le := by simp [start, gone, List.countP_replicate]
  emptied := fun some => absurd (by simp [start, gone, List.countP_replicate]) some
  exits := .inl rfl

theorem balanced_advance {index : Nat} {worker : Worker Task}
    (at_index : pool.workers[index]? = some worker) (balanced : Balanced pool) :
    Balanced (advance pool index worker) := by
  obtain ⟨counted, gone_le, emptied, exits⟩ := balanced
  have locks (after : Worker Task) := countP_moved at_index after atLock
  have exited (after : Worker Task) := countP_moved at_index after gone
  cases worker with
  | waiting =>
    simp only [advance]
    split_ifs with none
    · exact ⟨counted, gone_le, emptied, exits⟩
    · have lock := locks .taking
      have same := exited .taking
      simp only [atLock, gone, Bool.false_eq_true, if_false, if_true] at lock same
      refine ⟨?_, ?_, ?_, ?_⟩
      · dsimp only
        omega
      · dsimp only
        omega
      · intro some
        apply emptied
        dsimp only at some
        omega
      · simpa using exits
  | taking =>
    cases queue : pool._queue with
    | nil =>
      have lock := locks .exited
      have more := exited .exited
      simp only [atLock, gone, Bool.false_eq_true, if_false, if_true] at lock more
      rw [queue, List.length_nil] at counted
      simp only [advance, queue]
      refine ⟨?_, ?_, fun _ => rfl, ?_⟩
      · dsimp only [List.length_nil]
        omega
      · dsimp only
        omega
      · simpa using exits
    | cons task rest =>
      have lock := locks (.running task)
      have same := exited (.running task)
      simp only [atLock, gone, Bool.false_eq_true, if_false, if_true] at lock same
      rw [queue, List.length_cons] at counted
      simp only [advance, queue]
      refine ⟨?_, ?_, ?_, ?_⟩
      · dsimp only
        omega
      · dsimp only
        omega
      · intro some
        have none := emptied (by dsimp only at some; omega)
        rw [queue] at none
        cases none
      · simpa using exits
  | running task =>
    have lock := locks .waiting
    have same := exited .waiting
    simp only [atLock, gone, Bool.false_eq_true, if_false] at lock same
    simp only [advance]
    refine ⟨?_, ?_, ?_, ?_⟩
    · dsimp only
      omega
    · dsimp only
      omega
    · intro some
      apply emptied
      dsimp only at some
      omega
    · simpa using exits
  | exited => exact ⟨counted, gone_le, emptied, exits⟩

theorem balanced_step (pool : ThreadPool Task) (event : PoolEvent Task) (used : InUse pool event)
    (balanced : Balanced pool) : Balanced (step pool event) := by
  cases event with
  | push_task task first =>
    obtain ⟨counted, gone_le, emptied, exits⟩ := balanced
    have open_pool : pool.exits = 0 := used
    refine ⟨?_, gone_le, ?_, exits⟩
    · cases first <;> simp only [step, List.length_cons, List.length_append, List.length_nil,
        Bool.false_eq_true, if_false, if_true] <;> omega
    · intro some
      simp only [step] at some
      omega
  | post =>
    simp only [step]
    split_ifs with none
    · exact balanced
    · obtain ⟨counted, gone_le, emptied, exits⟩ := balanced
      refine ⟨?_, gone_le, emptied, exits⟩
      dsimp only
      omega
  | shutdown =>
    obtain ⟨counted, gone_le, emptied, exits⟩ := balanced
    have open_pool : pool.exits = 0 := used
    refine ⟨?_, ?_, emptied, .inr ?_⟩
    · simp only [step]
      omega
    · simp only [step]
      omega
    · simp only [step]
      omega
  | worker index =>
    simp only [step]
    cases at_index : pool.workers[index]? with
    | none => exact balanced
    | some worker => exact balanced_advance at_index balanced

/-- The tasks taken, and those queued behind them. -/
def tasks (pool : ThreadPool Task) : List Task := pool.taken ++ pool._queue

theorem tasks_step {event : PoolEvent Task} (other : ∀ task first, event ≠ .push_task task first) :
    (step pool event).tasks = pool.tasks := by
  cases event with
  | push_task task first => exact absurd rfl (other task first)
  | post =>
    simp only [step]
    split_ifs <;> rfl
  | shutdown => rfl
  | worker index =>
    simp only [step]
    cases pool.workers[index]? with
    | none => rfl
    | some worker =>
      cases worker with
      | waiting =>
        simp only [advance]
        split_ifs <;> rfl
      | taking => cases queue : pool._queue <;> simp [advance, tasks, queue]
      | running | exited => rfl

theorem tasks_run (events : List (PoolEvent Task)) (pool : ThreadPool Task) :
    (Execution.run step pool events).tasks.Perm (pushed events ++ pool.tasks) := by
  induction events generalizing pool with
  | nil => exact .refl _
  | cons event rest ih =>
    rw [Execution.run_cons]
    refine (ih _).trans ?_
    cases event with
    | push_task task first =>
      simp only [pushed, List.filterMap_cons, List.cons_append]
      have grown : (step pool (.push_task task first)).tasks.Perm (task :: pool.tasks) := by
        cases first with
        | true => exact List.perm_middle
        | false =>
          simp only [step, tasks, Bool.false_eq_true, if_false, ← List.append_assoc]
          exact List.perm_append_singleton _ _
      exact (grown.append_left _).trans List.perm_middle
    | post | shutdown | worker =>
      rw [tasks_step (by intro task first same; cases same)]
      exact .refl _

theorem tasks_run_back (events : List (PoolEvent Task)) (pool : ThreadPool Task)
    (back : ∀ task, .push_task task true ∉ events) :
    (Execution.run step pool events).tasks = pool.tasks ++ pushed events := by
  induction events generalizing pool with
  | nil => exact (List.append_nil _).symm
  | cons event rest ih =>
    have later : ∀ task, PoolEvent.push_task task true ∉ rest :=
      fun task member => back task (List.mem_cons_of_mem _ member)
    rw [Execution.run_cons, ih _ later]
    cases event with
    | push_task task first =>
      cases first with
      | true => exact absurd List.mem_cons_self (back task)
      | false =>
        simp only [pushed, List.filterMap_cons]
        simp [step, tasks]
    | post | shutdown | worker =>
      rw [tasks_step (by intro task first same; cases same)]
      rfl

/-- A pool that cannot go on has run what was queued, and its threads are gone where it was
shut down. -/
theorem drained_of_blocked (balanced : Balanced pool) (some : pool.workers ≠ [])
    (posted : pool.posting = 0) (blocked : ∀ worker ∈ pool.workers, worker.blocked pool._count = true) :
    pool._queue = [] ∧ (pool.exits ≠ 0 → ∀ worker ∈ pool.workers, worker = .exited) := by
  obtain ⟨counted, gone_le, emptied, exits⟩ := balanced
  have noLock : pool.workers.countP atLock = 0 := by
    apply List.countP_eq_zero.mpr
    intro worker member holds
    cases worker with
    | taking => cases blocked _ member
    | waiting | running | exited => cases holds
  have all_gone (idle : pool.workers.countP gone = pool.workers.length) :
      ∀ worker ∈ pool.workers, worker = .exited := by
    intro worker member
    have test := List.countP_eq_length.mp idle worker member
    cases worker with
    | exited => rfl
    | waiting | taking | running => cases test
  have nonempty := List.length_pos_iff.mpr some
  by_cases idle : pool.workers.countP gone = pool.workers.length
  · exact ⟨emptied (by omega), fun _ => all_gone idle⟩
  · -- a thread that is still there waits, for a count of zero
    have fewer := List.countP_le_length (p := gone) (l := pool.workers)
    have waits : pool._count = 0 := by
      by_contra counts
      apply idle
      apply List.countP_eq_length.mpr
      intro worker member
      cases worker with
      | waiting => exact absurd (beq_iff_eq.mp (blocked _ member)) counts
      | exited => rfl
      | taking | running => cases blocked _ member
    have none : pool.exits = 0 := by
      rcases exits with none | all
      · exact none
      · omega
    exact ⟨List.length_eq_zero_iff.mp (by omega), fun shut => absurd none shut⟩

/-- How many threads are at a task. -/
def atTask : Worker Task → Bool
  | .running _ => true
  | _ => false

/-- What a pool's threads have still to do. -/
def work (pool : ThreadPool Task) : Nat :=
  3 * pool._count + 2 * pool.workers.countP atLock + pool.workers.countP atTask

/-- Every step of a thread that can go on is progress. -/
theorem work_advance {index : Nat} {worker : Worker Task}
    (at_index : pool.workers[index]? = some worker) (free : worker.blocked pool._count = false) :
    work (step pool (.worker index)) < work pool := by
  have locks (after : Worker Task) := countP_moved at_index after atLock
  have tasks (after : Worker Task) := countP_moved at_index after atTask
  simp only [step, at_index]
  cases worker with
  | waiting =>
    have counts : pool._count ≠ 0 := by simpa [Worker.blocked] using free
    have lock := locks .taking
    have task := tasks .taking
    simp only [atLock, atTask, Bool.false_eq_true, if_false, if_true] at lock task
    rw [advance, if_neg counts]
    simp only [work]
    omega
  | taking =>
    cases queue : pool._queue with
    | nil =>
      have lock := locks .exited
      have task := tasks .exited
      simp only [atLock, atTask, Bool.false_eq_true, if_false, if_true] at lock task
      simp only [advance, queue, work]
      omega
    | cons first rest =>
      have lock := locks (.running first)
      have task := tasks (.running first)
      simp only [atLock, atTask, Bool.false_eq_true, if_false, if_true] at lock task
      simp only [advance, queue, work]
      omega
  | running done =>
    have lock := locks .waiting
    have task := tasks .waiting
    simp only [atLock, atTask, Bool.false_eq_true, if_false, if_true] at lock task
    simp only [advance, work]
    omega
  | exited => cases free

theorem workers_length (events : List (PoolEvent Task)) (_thread_num : Nat) :
    (Execution.run step (start _thread_num) events).workers.length = _thread_num := by
  apply @Execution.run_invariant _ _ step (fun pool => pool.workers.length = _thread_num)
  · intro pool event same
    rw [← same]
    cases event with
    | push_task | shutdown => rfl
    | post =>
      simp only [step]
      split_ifs <;> rfl
    | worker index =>
      simp only [step]
      cases pool.workers[index]? with
      | none => rfl
      | some worker =>
        cases worker with
        | waiting =>
          simp only [advance]
          split_ifs <;> simp
        | taking => cases queue : pool._queue <;> simp [advance, queue]
        | running | exited => simp [advance]
  · simp [start]

/-- A pool runs every task once. After every interleaving of threads that push with its own,
used so that nobody pushes once it is shut down, its threads make progress while one of them
can go on, whichever it is; and when none can and every push is posted, every task pushed
has been taken, in order where none was pushed to the front, and a pool that was shut down
has lost all its threads, and no task. -/
theorem runs_all {_thread_num : Nat} (some : 0 < _thread_num) (events : List (PoolEvent Task))
    (used : Execution.EveryStep step InUse (start _thread_num) events) :
    let pool := Execution.run step (start _thread_num) events
    (∀ index worker, pool.workers[index]? = .some worker → worker.blocked pool._count = false →
      work (step pool (.worker index)) < work pool) ∧
    (pool.posting = 0 → (∀ worker ∈ pool.workers, worker.blocked pool._count = true) →
      pool.taken.Perm (pushed events) ∧
      ((∀ task, .push_task task true ∉ events) → pool.taken = pushed events) ∧
      (pool.exits ≠ 0 → ∀ worker ∈ pool.workers, worker = .exited)) := by
  intro pool
  refine ⟨fun index worker at_index free => work_advance at_index free, fun posted blocked => ?_⟩
  have balanced : Balanced pool :=
    Execution.EveryStep.preserves balanced_step (balanced_start _thread_num) used
  have threads : pool.workers ≠ [] := by
    apply List.length_pos_iff.mp
    rw [workers_length]
    exact some
  obtain ⟨none, gone⟩ := drained_of_blocked balanced threads posted blocked
  have all : pool.tasks = pool.taken := by rw [tasks, none, List.append_nil]
  have whole := tasks_run events (start _thread_num)
  rw [show (start _thread_num : ThreadPool Task).tasks = [] from rfl, List.append_nil] at whole
  refine ⟨all ▸ whole, fun back => ?_, gone⟩
  exact all ▸ tasks_run_back events (start _thread_num) back

/-- Two frames for one thread, the second pushed while it waits for the first to be posted. -/
theorem runs_all_two :
    let events : List (PoolEvent Bool) :=
      [.push_task true false, .push_task false false, .post, .worker 0, .worker 0, .post, .shutdown,
        .worker 0, .worker 0, .worker 0, .worker 0, .worker 0, .worker 0]
    (Execution.run step (start 1) events).taken.Perm (pushed events) := by
  intro events
  refine ((runs_all Nat.one_pos events ?_).2 rfl ?_).1
  · simp [events, Execution.EveryStep, InUse, step, start, advance]
  · decide

end ThreadPool

end TalusVSwitch
