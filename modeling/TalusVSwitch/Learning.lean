import TalusVSwitch.Library.Execution
import TalusVSwitch.MacMap

namespace TalusVSwitch

structure LearnCall where
  now : Nat
  mac : Mac
  peer : SockAddr
  ttl : UInt8
deriving DecidableEq, Repr

/-- The table, and the TTLs with which one MAC was received from its stored address
since that address was stored. -/
structure Learner where
  table : MacMap
  heard : List UInt8

namespace Learner

/-- What a call for the MAC adds to the TTLs heard, read off the entry before and
after it. -/
def hear (before after : MacPeer) (heard : List UInt8) (call : LearnCall) : List UInt8 :=
  if compareSockAddr before.sock call.peer then heard ++ [call.ttl]
  else if after.sock ≠ before.sock then [call.ttl]
  else heard

def step (mac : Mac) (state : Learner) (call : LearnCall) : Learner :=
  let table := state.table.addMacPeer call.now call.mac call.peer call.ttl
  { table
    heard :=
      if call.mac ≠ mac then state.heard
      else
        match state.table.lookup mac, table.lookup mac with
        | some before, some after => hear before after state.heard call
        | _, _ => [call.ttl] }

/-- A call that replaces the stored address by a different one carries at least
every TTL heard from the address it replaces. -/
def NeverWorse (mac : Mac) (state : Learner) (call : LearnCall) : Prop :=
  call.mac = mac → ∀ before after, state.table.lookup mac = some before →
    (step mac state call).table.lookup mac = some after → after.sock ≠ before.sock →
    compareSockAddr before.sock call.peer = false → ∀ ttl ∈ state.heard, ttl ≤ call.ttl

/-- A call that refreshes the entry carries no more than the stored TTL. -/
def RefreshesWithin (mac : Mac) (state : Learner) (call : LearnCall) : Prop :=
  call.mac = mac → ∀ peerInfo, state.table.lookup mac = some peerInfo →
    compareSockAddr peerInfo.sock call.peer = true → call.ttl ≤ peerInfo.ttl

/-- The stored TTL bounds what was heard. -/
def HeardWithin (mac : Mac) (state : Learner) : Prop :=
  ∀ peerInfo, state.table.lookup mac = some peerInfo → ∀ ttl ∈ state.heard, ttl ≤ peerInfo.ttl

theorem step_other {mac : Mac} {state : Learner} {call : LearnCall} (other : call.mac ≠ mac) :
    (step mac state call).table.lookup mac = state.table.lookup mac ∧
      (step mac state call).heard = state.heard :=
  ⟨MacMap.lookup_addMacPeer_ne other.symm, by simp [step, other]⟩

theorem step_created {mac : Mac} {state : Learner} {call : LearnCall} (own : call.mac = mac)
    (absent : state.table.lookup mac = none) :
    (step mac state call).table.lookup mac = some ⟨call.peer, call.ttl, call.now⟩ ∧
      (step mac state call).heard = [call.ttl] := by
  subst own
  exact ⟨MacMap.lookup_addMacPeer_absent absent, by simp [step, absent]⟩

theorem step_present {mac : Mac} {state : Learner} {call : LearnCall} (own : call.mac = mac)
    {before : MacPeer} (present : state.table.lookup mac = some before) :
    (step mac state call).table.lookup mac = some (before.learn call.now call.peer call.ttl) ∧
      (step mac state call).heard =
        hear before (before.learn call.now call.peer call.ttl) state.heard call := by
  subst own
  exact ⟨by simp [step, present], by simp [step, present]⟩

theorem heardWithin_step (mac : Mac) (state : Learner) (call : LearnCall)
    (met : RefreshesWithin mac state call) (within : HeardWithin mac state) :
    HeardWithin mac (step mac state call) := by
  intro peerInfo stored ttl member
  by_cases own : call.mac = mac
  · cases present : state.table.lookup mac with
    | none =>
      obtain ⟨entry, heard⟩ := step_created own present
      rw [entry] at stored
      rw [heard] at member
      cases stored
      rw [List.mem_singleton.mp member]
      exact UInt8.le_refl _
    | some before =>
      obtain ⟨entry, heard⟩ := step_present own present
      rw [entry] at stored
      rw [heard] at member
      cases stored
      rcases before.learn_cases call.now call.peer call.ttl with
        ⟨same, learned⟩ | ⟨different, better, learned⟩ | ⟨different, worse, learned⟩
      · simp only [hear, same, if_true, List.mem_append, List.mem_singleton] at member
        rw [learned]
        rcases member with earlier | now
        · exact within before present ttl earlier
        · rw [now]
          exact met own before present same
      · rw [learned] at member ⊢
        simp only [hear, different, Bool.false_eq_true, if_false] at member
        split at member
        · rw [List.mem_singleton.mp member]
          exact UInt8.le_refl _
        · exact UInt8.le_trans (within before present ttl member) better
      · rw [learned] at member ⊢
        simp only [hear, different, Bool.false_eq_true, if_false, ne_eq, not_true_eq_false] at member
        exact within before present ttl member
  · obtain ⟨entry, heard⟩ := step_other own
    rw [entry] at stored
    rw [heard] at member
    exact within peerInfo stored ttl member

theorem heardWithin_safe (mac : Mac) (state : Learner) (call : LearnCall)
    (within : HeardWithin mac state) : NeverWorse mac state call := by
  intro own before after present stored moved different ttl member
  rw [(step_present own present).1] at stored
  cases stored
  rcases before.learn_cases call.now call.peer call.ttl with
    ⟨_, learned⟩ | ⟨_, better, _⟩ | ⟨_, _, learned⟩
  · exact absurd (congrArg MacPeer.sock learned) moved
  · exact UInt8.le_trans (within before present ttl member) better
  · exact absurd (congrArg MacPeer.sock learned) moved

/-- After a refresh above the stored TTL, a call with just the stored TTL from
elsewhere takes the entry. -/
theorem refresh_exposed (mac : Mac) (state : Learner) (call : LearnCall)
    (broken : ¬ RefreshesWithin mac state call) :
    ∃ next, ¬ NeverWorse mac (step mac state call) next := by
  simp only [RefreshesWithin, not_forall] at broken
  obtain ⟨own, before, present, same, above⟩ := broken
  obtain ⟨entry, heard⟩ := step_present own present
  have refreshed : before.learn call.now call.peer call.ttl = { before with ticker := call.now } := by
    simp [MacPeer.learn, same]
  obtain ⟨sin_addr, sin_port, elsewhere⟩ := exists_inet_of_compare before.sock
  have named : before.sock ≠ .unspec := by
    intro zeroed
    simp [zeroed] at same
  rw [refreshed] at entry
  refine ⟨⟨call.now, mac, .inet sin_addr sin_port, before.ttl⟩, fun safe => ?_⟩
  have replaced : (MacPeer.mk before.sock before.ttl call.now).learn call.now
      (.inet sin_addr sin_port) before.ttl = ⟨.inet sin_addr sin_port, before.ttl, call.now⟩ := by
    simp [MacPeer.learn, elsewhere]
  have taken := (@step_present mac (step mac state call)
    ⟨call.now, mac, .inet sin_addr sin_port, before.ttl⟩ rfl _ entry).1
  rw [replaced] at taken
  have moved : SockAddr.inet sin_addr sin_port ≠ before.sock := by
    intro equal
    rw [equal, compareSockAddr_self named] at elsewhere
    cases elsewhere
  have bound := safe rfl _ _ entry taken moved elsewhere call.ttl (by
    rw [heard]
    simp [hear, same])
  exact above bound

/-- The learned path is never displaced by a worse one exactly in the histories in
which no refresh carries more than the stored TTL: then, and only then, no call
that may come next anywhere replaces an address heard with a larger TTL. -/
theorem never_worse_iff {mac : Mac} {table : MacMap} (absent : table.lookup mac = none)
    (calls : List LearnCall) :
    Execution.EveryStep (step mac) (RefreshesWithin mac) ⟨table, []⟩ calls ↔
      ∀ first, first <+: calls → ∀ call,
        Execution.EveryStep (step mac) (NeverWorse mac) ⟨table, []⟩ (first ++ [call]) :=
  Execution.EveryStep.iff_safe (heardWithin_step mac) (heardWithin_safe mac) (refresh_exposed mac)
    (fun peerInfo stored => by simp [absent] at stored) calls

/-- A keep-alive with TTL 0 creates the entry, data with the full TTL follows from
the same address, and a relayed copy with TTL 3 takes the entry back. -/
theorem relayed_copy_displaces :
    ¬ Execution.EveryStep (step 0x20000) (NeverWorse 0x20000) ⟨∅, []⟩
      [⟨0, 0x20000, .inet 1 9001, 0⟩, ⟨1, 0x20000, .inet 1 9001, 8⟩,
        ⟨2, 0x20000, .inet 2 9001, 3⟩] := by
  rintro ⟨_, _, safe, _⟩
  have bound := safe rfl ⟨.inet 1 9001, 0, 1⟩ ⟨.inet 2 9001, 3, 2⟩ rfl rfl (by decide) rfl 8
    (by decide)
  exact absurd bound (by decide)

/-- A history that keeps the bound: the direct path is learned with the full TTL at
once, and a relayed copy does not displace it. -/
theorem never_worse_direct :
    Execution.EveryStep (step 0x20000) (NeverWorse 0x20000) ⟨∅, []⟩
      ([⟨0, 0x20000, .inet 1 9001, 8⟩, ⟨1, 0x20000, .inet 1 9001, 0⟩] ++
        [⟨2, 0x20000, .inet 2 9001, 3⟩]) := by
  refine (never_worse_iff rfl _).mp ?_ _ List.prefix_rfl _
  refine ⟨?_, ?_, trivial⟩
  · rintro - peerInfo ⟨⟩
  · rintro - peerInfo ⟨⟩
    decide

end Learner

end TalusVSwitch
