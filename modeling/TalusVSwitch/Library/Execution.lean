import Mathlib.Data.List.Basic
import Mathlib.Data.List.Infix

/-! Runs of a deterministic machine over a list of events, and the laws that
carry a fact about one step to every step of a run. -/

namespace Execution

universe u v w
variable {State : Type u} {Event : Type v}

/-- The state a machine reaches after a list of events. -/
def run (step : State → Event → State) (start : State) (events : List Event) : State :=
  events.foldl step start

/-- A condition on the state before a step, met by every step of a run. -/
def EveryStep (step : State → Event → State) (meets : State → Event → Prop) :
    State → List Event → Prop
  | _, [] => True
  | state, event :: rest => meets state event ∧ EveryStep step meets (step state event) rest

instance EveryStep.decidable (step : State → Event → State) (meets : State → Event → Prop)
    [∀ state event, Decidable (meets state event)] :
    ∀ state events, Decidable (EveryStep step meets state events)
  | _, [] => isTrue trivial
  | state, event :: rest =>
    have := EveryStep.decidable step meets (step state event) rest
    inferInstanceAs (Decidable (meets state event ∧ EveryStep step meets (step state event) rest))

variable {Fact : Type w} {step : State → Event → State} {meets safe : State → Event → Prop}
  {invariant : State → Prop}

@[simp] theorem run_nil (start : State) : run step start [] = start := rfl

@[simp] theorem run_cons (start : State) (event : Event) (rest : List Event) :
    run step start (event :: rest) = run step (step start event) rest := rfl

@[simp] theorem run_append (start : State) (first second : List Event) :
    run step start (first ++ second) = run step (run step start first) second := by
  simp [run, List.foldl_append]

/-- What one step preserves, a whole run preserves. -/
theorem run_invariant (preserved : ∀ state event, invariant state → invariant (step state event))
    {start : State} (initial : invariant start) (events : List Event) :
    invariant (run step start events) := by
  induction events generalizing start with
  | nil => exact initial
  | cons event rest ih => exact ih (preserved start event initial)

theorem run_admitted {admitted : Event → Prop}
    (preserved : ∀ state event, admitted event → invariant state → invariant (step state event))
    {start : State} (initial : invariant start) {events : List Event}
    (admits : ∀ event ∈ events, admitted event) : invariant (run step start events) := by
  induction events generalizing start with
  | nil => exact initial
  | cons event rest ih =>
    obtain ⟨first, later⟩ := List.forall_mem_cons.mp admits
    exact ih (preserved start event first initial) later

/-- What is pending stays so over a run, unless a step settles it. -/
theorem pending_or_settled {pending : State → Prop} {settles : State → Event → Prop}
    (kept : ∀ state event, pending state → pending (step state event) ∨ settles state event)
    {start : State} (initial : pending start) (events : List Event) :
    pending (run step start events) ∨
      ∃ first event, first ++ [event] <+: events ∧ settles (run step start first) event := by
  induction events generalizing start with
  | nil => exact .inl initial
  | cons event rest ih =>
    rcases kept start event initial with next | settled
    · rcases ih next with still | ⟨first, last, earlier, settled⟩
      · exact .inl still
      · exact .inr ⟨event :: first, last, List.cons_prefix_cons.mpr ⟨rfl, earlier⟩, settled⟩
    · exact .inr ⟨[], event, by simp, settled⟩

theorem run_provenance {has : State → Fact → Prop} {brings : Event → Fact → Prop}
    (origin : ∀ state event fact, has (step state event) fact → has state fact ∨ brings event fact)
    {start : State} {events : List Event} {fact : Fact} (left : has (run step start events) fact) :
    has start fact ∨ ∃ event ∈ events, brings event fact := by
  induction events generalizing start with
  | nil => exact .inl left
  | cons event rest ih =>
    rcases ih left with early | ⟨later, member, brought⟩
    · rcases origin start event fact early with initial | brought
      · exact .inl initial
      · exact .inr ⟨event, List.mem_cons_self .., brought⟩
    · exact .inr ⟨later, List.mem_cons_of_mem _ member, brought⟩

theorem EveryStep.append {start : State} {first second : List Event} :
    EveryStep step meets start (first ++ second) ↔
      EveryStep step meets start first ∧ EveryStep step meets (run step start first) second := by
  induction first generalizing start with
  | nil => simp [EveryStep]
  | cons event rest ih => simp [EveryStep, ih, and_assoc]

theorem EveryStep.of_prefix {start : State} {first events : List Event} (earlier : first <+: events)
    (met : EveryStep step meets start events) : EveryStep step meets start first := by
  obtain ⟨second, rfl⟩ := earlier
  exact (EveryStep.append.mp met).1

/-- An invariant kept by the steps that meet a condition holds after every run
all of whose steps meet it. -/
theorem EveryStep.preserves
    (preserved : ∀ state event, meets state event → invariant state → invariant (step state event))
    {start : State} {events : List Event} (initial : invariant start)
    (met : EveryStep step meets start events) : invariant (run step start events) := by
  induction events generalizing start with
  | nil => exact initial
  | cons event rest ih => exact ih (preserved start event met.1 initial) met.2

theorem EveryStep.iff_prefix {start : State} {events : List Event} :
    EveryStep step safe start events ↔
      ∀ first event, first ++ [event] <+: events → safe (run step start first) event := by
  constructor
  · intro met first event earlier
    have kept := met.of_prefix earlier
    exact (EveryStep.append.mp kept).2.1
  · intro every
    induction events generalizing start with
    | nil => trivial
    | cons event rest ih =>
      refine ⟨every [] event (by simp), ih ?_⟩
      intro first next earlier
      simpa using every (event :: first) next (List.cons_prefix_cons.mpr ⟨rfl, earlier⟩)

/-- An exact condition for safety: the steps that meet it keep an invariant under
which every next event is safe, and a step that breaks it leaves a state with an
unsafe next event. -/
theorem EveryStep.iff_safe
    (preserved : ∀ state event, meets state event → invariant state → invariant (step state event))
    (protects : ∀ state event, invariant state → safe state event)
    (exposes : ∀ state event, ¬ meets state event → ∃ next, ¬ safe (step state event) next)
    {start : State} (initial : invariant start) (events : List Event) :
    EveryStep step meets start events ↔
      ∀ first, first <+: events → ∀ event, EveryStep step safe start (first ++ [event]) := by
  constructor
  · intro met first earlier event
    apply EveryStep.iff_prefix.mpr
    intro shorter next whole
    have shorterPrefix : shorter <+: first := by
      rcases List.prefix_concat_iff.mp whole with same | proper
      · exact (List.append_inj_left' same rfl) ▸ List.prefix_rfl
      · exact (List.prefix_append shorter [next]).trans proper
    exact protects _ next (EveryStep.preserves preserved initial
      (met.of_prefix (shorterPrefix.trans earlier)))
  · intro extended
    apply EveryStep.iff_prefix.mpr
    intro first event earlier
    by_contra broken
    obtain ⟨next, unsafeNext⟩ := exposes _ event broken
    have whole := extended (first ++ [event]) earlier next
    have last := (EveryStep.append.mp whole).2.1
    rw [run_append] at last
    exact unsafeNext last

section Outputs

variable {Output : Type w} {out : State → Event → List Output}

/-- What the steps of a run put out, one after the other. -/
def outputs (step : State → Event → State) (out : State → Event → List Output) :
    State → List Event → List Output
  | _, [] => []
  | state, event :: rest => out state event ++ outputs step out (step state event) rest

@[simp] theorem outputs_cons (start : State) (event : Event) (rest : List Event) :
    outputs step out start (event :: rest) = out start event ++ outputs step out (step start event) rest :=
  rfl

@[simp] theorem outputs_append (start : State) (first second : List Event) :
    outputs step out start (first ++ second) =
      outputs step out start first ++ outputs step out (run step start first) second := by
  induction first generalizing start with
  | nil => rfl
  | cons event rest ih => simp [ih, List.append_assoc]

theorem mem_outputs {start : State} {events : List Event} {output : Output} :
    output ∈ outputs step out start events ↔
      ∃ first event, first ++ [event] <+: events ∧ output ∈ out (run step start first) event := by
  constructor
  · intro put
    induction events generalizing start with
    | nil => cases put
    | cons event rest ih =>
      rcases List.mem_append.mp put with here | later
      · exact ⟨[], event, by simp, here⟩
      · obtain ⟨first, next, earlier, there⟩ := ih later
        exact ⟨event :: first, next, List.cons_prefix_cons.mpr ⟨rfl, earlier⟩, there⟩
  · rintro ⟨first, event, ⟨rest, rfl⟩, here⟩
    simp [here]

/-- Steps that pay for what they put out, from a reserve that only what they take in can
fill, put out no more over a run than is paid for. -/
theorem count_outputs_le {Output' : Type w} [DecidableEq Output] [DecidableEq Output']
    {taken : State → Event → List Output'} {reserve : State → Nat} {output : Output}
    {input : Output'} {price : Nat}
    (paid : ∀ state event, (out state event).count output + reserve (step state event) ≤
      reserve state + price * (taken state event).count input)
    (start : State) (events : List Event) :
    (outputs step out start events).count output + reserve (run step start events) ≤
      reserve start + price * (outputs step taken start events).count input := by
  induction events generalizing start with
  | nil => simp [outputs]
  | cons event rest ih =>
    have here := paid start event
    have later := ih (step start event)
    simp only [outputs_cons, run_cons, List.count_append, Nat.mul_add]
    omega

end Outputs

section Simulation

universe u' v'
variable {Output : Type w} {out : State → Event → List Output}
  {Abstract : Type u'} {Move : Type v'} {move : Abstract → Move → Abstract}
  {shown : Abstract → Move → List Output} {related : State → Abstract → Prop}

/-- A machine whose every step another one matches in some steps, with the same output, is
matched by it over whole runs. -/
theorem simulation
    (matched : ∀ state abstract event, related state abstract → ∃ moves,
      related (step state event) (run move abstract moves) ∧
        outputs move shown abstract moves = out state event)
    {start : State} {initial : Abstract} (together : related start initial) (events : List Event) :
    ∃ moves, related (run step start events) (run move initial moves) ∧
      outputs move shown initial moves = outputs step out start events := by
  induction events generalizing start initial with
  | nil => exact ⟨[], together, rfl⟩
  | cons event rest ih =>
    obtain ⟨moves, next, same⟩ := matched start initial event together
    obtain ⟨more, last, later⟩ := ih next
    refine ⟨moves ++ more, ?_, ?_⟩
    · rwa [run_append]
    · rw [outputs_append, same, later, outputs_cons]

end Simulation

end Execution
