import TalusVSwitch.Library.Execution
import TalusVSwitch.Library.Multimap
import TalusVSwitch.Library.Timers

/-! The delay tasks of `EventPoller.cpp`: one map of deadlines for all tasks of a poller,
and the delay its loop sleeps. -/

namespace TalusVSwitch

universe u

namespace EventPoller

/-- `_delay_task_map` -/
abbrev DelayTaskMap (Task : Type u) := Multimap Nat Task

/-- The time so long after another, as a `uint64_t`. -/
def timeAfter (now delay : Nat) : Nat := (delay + now) % 18446744073709551616

/-- How long a time is ahead, as a `uint64_t`. -/
def timeLeft (now time_line : Nat) : Nat :=
  (time_line + 18446744073709551616 - now) % 18446744073709551616

section Calls

variable {Task : Type u} (call : Task → Option (Nat × Task))

/-- What a flush does with the task it has run, with the counters the call has left it. An
exception drops a task as well. -/
def requeue (now_time : Nat) (_delay_task_map : DelayTaskMap Task) (entry : Nat × Task) :
    DelayTaskMap Task :=
  match call entry.2 with
  | none => _delay_task_map
  | some (next_delay, task) =>
    if next_delay ≠ 0 then _delay_task_map.emplace (timeAfter now_time next_delay) task
    else _delay_task_map

/-- The map a flush fills while the due tasks run. -/
def repeated (now_time : Nat) (due : List (Nat × Task)) : DelayTaskMap Task :=
  due.foldl (requeue call now_time) ∅

/-- What `flushDelayTask` and `getMinDelay` come to: the tasks run, the map left, and the
delay returned. -/
structure Flush (Task : Type u) where
  ran : List Task
  map : DelayTaskMap Task
  delay : Nat

/-- `flushDelayTask` -/
def flushDelayTask (now_time : Nat) (_delay_task_map : DelayTaskMap Task) : Flush Task :=
  let due := _delay_task_map.upTo now_time
  let task_copy := (_delay_task_map.beyond now_time).insert (repeated call now_time due).entries
  { ran := due.map Prod.snd
    map := task_copy
    delay :=
      match task_copy.entries.head? with
      | none => 0
      | some first => timeLeft now_time first.1 }

/-- `getMinDelay` -/
def getMinDelay (now : Nat) (_delay_task_map : DelayTaskMap Task) : Flush Task :=
  match _delay_task_map.entries.head? with
  | none => ⟨[], _delay_task_map, 0⟩
  | some first =>
    if now < first.1 then ⟨[], _delay_task_map, timeLeft now first.1⟩
    else flushDelayTask call now _delay_task_map

/-- As what a task goes on that is run now, and by which deadline. -/
def again (now : Nat) (task : Task) : Option (Nat × Task) :=
  ((call task).filter (fun result => result.1 ≠ 0)).map
    (fun result => (timeAfter now result.1, result.2))

end Calls

/-- The timeout `epoll_wait` gets: `minDelay ? minDelay : -1`, cut to an `int`. -/
def timeout (minDelay : Nat) : Int :=
  (if minDelay ≠ 0 then (minDelay : Int) else -1).bmod 4294967296

/-- A poller's loop: its delay tasks, those run so far, each with the time, and the time by
which `epoll_wait` returns, if there is one. -/
structure Loop (Task : Type u) where
  map : DelayTaskMap Task
  ran : List (Nat × Task)
  wake : Option Nat

inductive LoopEvent (Task : Type u) where
  /-- What `doDelayTask` posts is run in `onPipeEvent`. -/
  | emplace (now time_line : Nat) (task : Task)
  | getMinDelay (now : Nat)

/-- When an event takes place. -/
def LoopEvent.now {Task : Type u} : LoopEvent Task → Nat
  | .emplace now .. => now
  | .getMinDelay now => now

/-- The times a loop asks for its next delay. -/
def LoopEvent.poll {Task : Type u} : LoopEvent Task → Option Nat
  | .emplace .. => none
  | .getMinDelay now => some now

namespace Loop

variable {Task : Type u} (call : Task → Option (Nat × Task))

def start : Loop Task := ⟨∅, [], none⟩

def step (loop : Loop Task) : LoopEvent Task → Loop Task
  | .emplace now time_line task =>
    { loop with
      map := loop.map.emplace time_line task
      wake := some (match loop.wake with | none => now | some wake => min wake now) }
  | .getMinDelay now =>
    let flush := getMinDelay call now loop.map
    { map := flush.map
      ran := loop.ran ++ flush.ran.map (Prod.mk now)
      -- below zero `epoll_wait` waits for an event, however long
      wake := if timeout flush.delay < 0 then none else some (now + (timeout flush.delay).toNat) }

/-- The timers started in a run, each with the times it is polled from then on. -/
def timers : List (LoopEvent Task) → List ((Nat × Task) × List Nat)
  | [] => []
  | .emplace _ time_line task :: rest =>
    ((time_line, task), rest.filterMap LoopEvent.poll) :: timers rest
  | .getMinDelay _ :: rest => timers rest

end Loop

variable {Task : Type u} {call : Task → Option (Nat × Task)} {now : Nat} {map : DelayTaskMap Task}

/-- The short cuts of `getMinDelay` change nothing. -/
theorem getMinDelay_eq : getMinDelay call now map = flushDelayTask call now map := by
  rw [getMinDelay]
  cases front : map.entries.head? with
  | none =>
    have none := List.head?_eq_none_iff.mp front
    obtain ⟨entries, sorted⟩ := map
    subst none
    rfl
  | some first =>
    dsimp only
    split_ifs with early
    · have idle : map.upTo now = [] := by
        apply List.eq_nil_iff_forall_not_mem.mpr
        intro entry member
        have due := Multimap.le_of_mem_upTo member
        have present : entry ∈ map.entries := by
          rw [← map.upTo_append_beyond now]
          exact List.mem_append_left _ member
        exact absurd (Multimap.first_le front present) (by omega)
      have whole : map.beyond now = map := by
        have parts := map.upTo_append_beyond now
        rw [idle, List.nil_append] at parts
        exact Multimap.ext parts
      simp only [flushDelayTask, idle, whole, repeated, List.foldl_nil, Multimap.entries_empty,
        Multimap.insert, front, List.map_nil]
    · rfl

theorem requeue_eq (entry : Nat × Task) : requeue call now map entry =
    match again call now entry.2 with
    | none => map
    | some next => map.emplace next.1 next.2 := by
  rw [requeue, again]
  cases called : call entry.2 with
  | none => rfl
  | some next =>
    by_cases done : next.1 = 0
    · simp [Option.filter, done]
    · simp [Option.filter, done]

theorem repeated_perm (due : List (Nat × Task)) :
    (repeated call now due).entries.Perm (due.filterMap (fun entry => again call now entry.2)) := by
  have from_map (map : DelayTaskMap Task) : (due.foldl (requeue call now) map).entries.Perm
      (due.filterMap (fun entry => again call now entry.2) ++ map.entries) := by
    induction due generalizing map with
    | nil => exact .refl _
    | cons entry rest ih =>
      rw [List.foldl_cons, requeue_eq]
      refine (ih _).trans ?_
      cases more : again call now entry.2 with
      | none => simp [more]
      | some next =>
        simp only [more, List.filterMap_cons, List.cons_append]
        exact ((Multimap.emplace_perm _ _).append_left _).trans List.perm_middle
  have whole := from_map ∅
  rwa [Multimap.entries_empty, List.append_nil] at whole

theorem flush_perm : (flushDelayTask call now map).map.entries.Perm
    ((map.upTo now).filterMap (fun entry => again call now entry.2) ++ (map.beyond now).entries) :=
  (Multimap.insert_perm _).trans ((repeated_perm _).append_right _)

namespace Loop

/-- The firings of a timer, polled at these times. -/
abbrev firings (call : Task → Option (Nat × Task)) : Nat × Task → List Nat → List (Nat × Task) :=
  Timers.firings (again call)

/-- One poll fires the timers due, and leaves each in the map as what it goes on as. -/
theorem firings_flush (later : List Nat) :
    ((flushDelayTask call now map).ran.map (Prod.mk now) ++
        (flushDelayTask call now map).map.entries.flatMap (fun timer => firings call timer later)).Perm
      (map.entries.flatMap (fun timer => firings call timer (now :: later))) := by
  have waiting : (map.beyond now).entries.flatMap (fun timer => firings call timer (now :: later)) =
      (map.beyond now).entries.flatMap (fun timer => firings call timer later) := by
    apply List.flatMap_congr
    intro timer member
    exact Timers.firings_early (Multimap.lt_of_mem_beyond member)
  have fired (due : List (Nat × Task)) (early : ∀ timer ∈ due, timer.1 ≤ now) :
      ((due.map Prod.snd).map (Prod.mk now) ++
        (due.filterMap (fun entry => again call now entry.2)).flatMap
            (fun timer => firings call timer later)).Perm
        (due.flatMap (fun timer => firings call timer (now :: later))) := by
    induction due with
    | nil => exact .refl _
    | cons timer rest ih =>
      have others := ih (fun other member => early other (List.mem_cons_of_mem _ member))
      have late := early timer List.mem_cons_self
      rw [List.flatMap_cons]
      cases more : again call now timer.2 with
      | none =>
        rw [firings, Timers.firings_once late more]
        simpa [more] using others
      | some next =>
        rw [firings, Timers.firings_again late more]
        simp only [List.map_cons, List.filterMap_cons, more, List.flatMap_cons,
          List.cons_append, List.perm_cons]
        refine List.Perm.trans ?_ (others.append_left _)
        rw [← List.append_assoc, ← List.append_assoc]
        exact List.perm_append_comm.append_right _
  have due := fired (map.upTo now) (fun timer member => Multimap.le_of_mem_upTo member)
  calc (flushDelayTask call now map).ran.map (Prod.mk now) ++
        (flushDelayTask call now map).map.entries.flatMap (fun timer => firings call timer later)
    _ |>.Perm (((map.upTo now).map Prod.snd).map (Prod.mk now) ++
        ((map.upTo now).filterMap (fun entry => again call now entry.2) ++
            (map.beyond now).entries).flatMap (fun timer => firings call timer later)) :=
      (flush_perm.flatMap_right _).append_left _
    _ |>.Perm ((map.upTo now).flatMap (fun timer => firings call timer (now :: later)) ++
        (map.beyond now).entries.flatMap (fun timer => firings call timer (now :: later))) := by
      rw [List.flatMap_append, ← List.append_assoc, waiting]
      exact due.append_right _
    _ |>.Perm (map.entries.flatMap (fun timer => firings call timer (now :: later))) := by
      rw [← List.flatMap_append, map.upTo_append_beyond now]

theorem run_perm (loop : Loop Task) (events : List (LoopEvent Task)) :
    (Execution.run (step call) loop events).ran.Perm
      (loop.ran ++ loop.map.entries.flatMap (fun timer =>
        firings call timer (events.filterMap LoopEvent.poll)) ++
        (timers events).flatMap (fun timer => firings call timer.1 timer.2)) := by
  induction events generalizing loop with
  | nil =>
    have idle (entries : List (Nat × Task)) :
        entries.flatMap (fun timer => firings call timer []) = [] := by
      simp [firings, Timers.firings]
    rw [List.filterMap_nil, idle]
    simp [timers]
  | cons event rest ih =>
    rw [Execution.run_cons]
    refine (ih _).trans ?_
    cases event with
    | emplace now time_line task =>
      have placed := (@Multimap.emplace_perm _ _ _ loop.map time_line task).flatMap_right
        (fun timer => firings call timer (rest.filterMap LoopEvent.poll))
      simp only [step, timers, List.filterMap_cons, LoopEvent.poll, List.flatMap_cons]
      calc loop.ran ++ (loop.map.emplace time_line task).entries.flatMap (fun timer =>
              firings call timer (rest.filterMap LoopEvent.poll)) ++
            (timers rest).flatMap (fun timer => firings call timer.1 timer.2)
        _ |>.Perm _ := ((placed.append_left _).append_right _)
        _ |>.Perm _ := by
          rw [List.flatMap_cons, List.append_assoc, List.append_assoc, List.append_assoc]
          apply List.Perm.append_left
          rw [← List.append_assoc, ← List.append_assoc]
          exact List.perm_append_comm.append_right _
    | getMinDelay now =>
      have fired := @firings_flush _ call now loop.map (rest.filterMap LoopEvent.poll)
      simp only [step, timers, List.filterMap_cons, LoopEvent.poll, getMinDelay_eq]
      apply List.Perm.append_right
      rw [List.append_assoc]
      exact fired.append_left _

/-- The map the timers share is not to be noticed: over every run of a poller's loop, the
tasks run are, each with its time, those that every timer started would have run on its
own, polled whenever the loop polls from then on. -/
theorem timers_independent (call : Task → Option (Nat × Task)) (events : List (LoopEvent Task)) :
    (Execution.run (step call) start events).ran.Perm
      ((timers events).flatMap (fun timer => firings call timer.1 timer.2)) :=
  run_perm start events

/-- A clock that does not go back nor run out, and delays that an `int` can hold. -/
structure Fits (call : Task → Option (Nat × Task)) (events : List (LoopEvent Task)) : Prop where
  clock : (events.map LoopEvent.now).Pairwise (· ≤ ·)
  last : ∀ event ∈ events, event.now + 2147483648 ≤ 18446744073709551616
  posted : ∀ now time_line task, .emplace now time_line task ∈ events → time_line < now + 2147483648
  repeated : ∀ task next, call task = some next → next.1 < 2147483648

section Bounds

variable {loop : Loop Task} (short : ∀ task next, call task = some next → next.1 < 2147483648)
  (last : now + 2147483648 ≤ 18446744073709551616)

include short last

end Bounds

-- a delay from 2^31 ms on is a sleep without end
example : timeout 2147483648 < 0 := by decide

variable {loop : Loop Task} {event : LoopEvent Task} {rest : List (LoopEvent Task)} {latency : Nat}

theorem Fits.tail (fits : Fits call (event :: rest)) : Fits call rest where
  clock := (List.pairwise_cons.mp fits.clock).2
  last later member := fits.last later (List.mem_cons_of_mem _ member)
  posted now time_line task member := fits.posted now time_line task (List.mem_cons_of_mem _ member)
  repeated := fits.repeated

end Loop

end EventPoller

end TalusVSwitch
