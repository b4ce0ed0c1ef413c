import TalusVSwitch.Library.Execution
import TalusVSwitch.MacMap

namespace TalusVSwitch

/-- The table, the removal tasks posted and not yet run, and the clock. -/
structure Ageing where
  table : MacMap
  tasks : List RemovalTask
  now : Nat

inductive AgeingEvent where
  | addMacPeer (mac : Mac) (peer : SockAddr) (ttl : UInt8)
  | checkMac (enumeration : Enumeration)
  /-- Some poller runs one of the posted tasks. -/
  | runTask (index : Nat)
  | elapse (milliseconds : Nat)

namespace Ageing

def step (state : Ageing) : AgeingEvent → Ageing
  | .addMacPeer mac peer ttl =>
    { state with table := state.table.addMacPeer state.now mac peer ttl }
  | .checkMac enumeration =>
    { state with
      tasks := state.tasks ++ MacMap.checkMac (enumeration.order state.table) state.now }
  | .runTask index =>
    match state.tasks[index]? with
    | none => state
    | some task =>
      { state with
        table := state.table.runRemoval task
        tasks := state.tasks.eraseIdx index }
  | .elapse milliseconds => { state with now := state.now + milliseconds }

/-- An entry that a removal task erases was last reset more than 20000 ms ago. -/
def ErasesOnlyIdle (state : Ageing) (event : AgeingEvent) : Prop :=
  ∀ index task peerInfo, event = .runTask index → state.tasks[index]? = some task →
    state.table.lookup task.mac = some peerInfo →
    (step state event).table.lookup task.mac = none → 20000 < state.now - peerInfo.ticker

/-- Whether a call creates, moves or refreshes the entry, and so resets its ticker. -/
def Resets (table : MacMap) (mac : Mac) (peer : SockAddr) (ttl : UInt8) : Prop :=
  ∀ peerInfo, table.lookup mac = some peerInfo →
    compareSockAddr peerInfo.sock peer = true ∨ peerInfo.ttl ≤ ttl

/-- No ticker is reset while a due removal task for its key is still queued. -/
def ResetsNoQueued (state : Ageing) (event : AgeingEvent) : Prop :=
  ∀ mac peer ttl, event = .addMacPeer mac peer ttl → Resets state.table mac peer ttl →
    ∀ task ∈ state.tasks, task.mac = mac → task.due = false

/-- The entry of every due task queued is idle for more than 20000 ms. -/
def QueuedIdle (state : Ageing) : Prop :=
  ∀ task ∈ state.tasks, task.due = true → ∀ peerInfo,
    state.table.lookup task.mac = some peerInfo → 20000 < state.now - peerInfo.ticker

theorem learn_of_not_resets {table : MacMap} {now : Nat} {mac : Mac} {peer : SockAddr} {ttl : UInt8}
    (kept : ¬ Resets table mac peer ttl) :
    (table.addMacPeer now mac peer ttl).lookup mac = table.lookup mac := by
  simp only [Resets, not_forall, not_or] at kept
  obtain ⟨peerInfo, found, different, better⟩ := kept
  rcases peerInfo.learn_cases now peer ttl with ⟨same, _⟩ | ⟨_, worse, _⟩ | ⟨_, _, learned⟩
  · exact absurd same different
  · exact absurd worse better
  · simp [found, learned]

theorem ticker_of_resets {table : MacMap} {now : Nat} {mac : Mac} {peer : SockAddr} {ttl : UInt8}
    (resets : Resets table mac peer ttl) :
    ∃ peerInfo, (table.addMacPeer now mac peer ttl).lookup mac = some peerInfo ∧
      peerInfo.ticker = now := by
  cases found : table.lookup mac with
  | none => exact ⟨_, MacMap.lookup_addMacPeer_absent found, rfl⟩
  | some peerInfo =>
    refine ⟨peerInfo.learn now peer ttl, by simp [found], ?_⟩
    rcases peerInfo.learn_cases now peer ttl with ⟨_, learned⟩ | ⟨_, _, learned⟩ | ⟨different, worse, _⟩
    · rw [learned]
    · rw [learned]
    · rcases resets peerInfo found with same | better
      · simp [different] at same
      · exact absurd better (UInt8.not_le.mpr worse)

/-- A scan samples more than 20000 ms only of entries idle for so long. -/
theorem checkMac_idle {table : MacMap} {enumeration : Enumeration} {now : Nat} {task : RemovalTask}
    (posted : task ∈ MacMap.checkMac (enumeration.order table) now) (due : task.due = true)
    {peerInfo : MacPeer} (found : table.lookup task.mac = some peerInfo) :
    20000 < now - peerInfo.ticker := by
  obtain ⟨entry, member, rfl⟩ := List.mem_map.mp posted
  have stored := (enumeration.perm table).subset member
  have same : table.lookup entry.1 = some entry.2 := AList.mem_lookup_iff.mpr stored
  rw [same] at found
  cases found
  simp only [RemovalTask.due, Bool.and_eq_true, decide_eq_true_eq] at due
  exact due.1

theorem queuedIdle_step (state : Ageing) (event : AgeingEvent) (met : ResetsNoQueued state event)
    (idle : QueuedIdle state) : QueuedIdle (step state event) := by
  intro task queued due peerInfo found
  cases event with
  | addMacPeer mac peer ttl =>
    by_cases same : task.mac = mac
    · subst mac
      by_cases resets : Resets state.table task.mac peer ttl
      · rw [met task.mac peer ttl rfl resets task queued rfl] at due
        cases due
      · simp only [step, learn_of_not_resets resets] at found
        exact idle task queued due peerInfo found
    · simp only [step, MacMap.lookup_addMacPeer_ne same] at found
      exact idle task queued due peerInfo found
  | checkMac enumeration =>
    rcases List.mem_append.mp queued with before | posted
    · exact idle task before due peerInfo found
    · exact checkMac_idle posted due found
  | runTask index =>
    cases run : state.tasks[index]? with
    | none =>
      simp only [step, run] at queued found ⊢
      exact idle task queued due peerInfo found
    | some removal =>
      simp only [step, run] at queued found ⊢
      exact idle task (List.mem_of_mem_eraseIdx queued) due peerInfo
        (MacMap.lookup_runRemoval found)
  | elapse milliseconds =>
    have before := idle task queued due peerInfo found
    simp only [step]
    omega

theorem queuedIdle_safe (state : Ageing) (event : AgeingEvent) (idle : QueuedIdle state) :
    ErasesOnlyIdle state event := by
  rintro index task peerInfo rfl run found erased
  cases due : task.due with
  | true => exact idle task (List.mem_of_getElem? run) due peerInfo found
  | false =>
    simp [step, run, MacMap.runRemoval_of_not_due due, found] at erased

theorem reset_exposed (state : Ageing) (event : AgeingEvent) (broken : ¬ ResetsNoQueued state event) :
    ∃ next, ¬ ErasesOnlyIdle (step state event) next := by
  simp only [ResetsNoQueued, not_forall] at broken
  obtain ⟨mac, peer, ttl, rfl, resets, task, queued, rfl, due⟩ := broken
  obtain ⟨index, below, run⟩ := List.mem_iff_getElem.mp queued
  have posted : state.tasks[index]? = some task := by
    rw [List.getElem?_eq_getElem below, run]
  obtain ⟨peerInfo, found, fresh⟩ := @ticker_of_resets _ state.now _ _ _ resets
  refine ⟨.runTask index, fun safe => ?_⟩
  have erased := safe index task peerInfo rfl posted found (by
    simp [step, posted, MacMap.runRemoval_of_due (Bool.of_not_eq_false due), MacMap.removePeer])
  simp only [step, fresh] at erased
  omega

/-- Ageing keeps every fresh learning update exactly in the runs that reset no
ticker under a due removal task: then, and only then, every removal that may run
next anywhere along the run erases an entry idle for more than 20000 ms. -/
theorem erases_only_idle_iff (table : MacMap) (now : Nat) (events : List AgeingEvent) :
    Execution.EveryStep step ResetsNoQueued ⟨table, [], now⟩ events ↔
      ∀ first, first <+: events → ∀ event,
        Execution.EveryStep step ErasesOnlyIdle ⟨table, [], now⟩ (first ++ [event]) :=
  Execution.EveryStep.iff_safe queuedIdle_step queuedIdle_safe reset_exposed
    (fun _ queued => by cases queued) events

/-- A peer refreshed between the scan that found it idle and the task that scan
posted: the task erases the entry in the millisecond of its refresh. -/
theorem erases_refreshed :
    ¬ Execution.EveryStep step ErasesOnlyIdle ⟨∅, [], 0⟩
      [.addMacPeer 0x20000 (.inet 1 9001) 8, .elapse 20001, .checkMac .stored,
        .addMacPeer 0x20000 (.inet 1 9001) 8, .runTask 0] := by
  rintro ⟨_, _, _, _, idle, _⟩
  have erased := idle 0 ⟨0x20000, 20001⟩ ⟨.inet 1 9001, 8, 20001⟩ rfl rfl rfl rfl
  exact absurd erased (by decide)

end Ageing

end TalusVSwitch
