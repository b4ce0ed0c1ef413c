import Mathlib.Data.List.Basic

namespace ChunkedRead

universe u
variable {Item : Type u}

/-- Read `chunk` items at a time. `accept` is asked at every read, with the number
of reads made before and the items still unread. -/
def readAll (chunk : Nat) (positive : 0 < chunk) (accept : Nat → List Item → Bool)
    (reads : Nat) (rest : List Item) : Option (List Item) :=
  if accept reads rest then
    if (rest.take chunk).length = chunk then
      (readAll chunk positive accept (reads + 1) (rest.drop chunk)).map (rest.take chunk ++ ·)
    else some (rest.take chunk)
  else none
termination_by rest.length
decreasing_by
  simp only [List.length_take, List.length_drop] at *
  omega

variable {chunk : Nat} {positive : 0 < chunk} {accept : Nat → List Item → Bool}

theorem readAll_refused {reads : Nat} {rest : List Item} (refused : accept reads rest = false) :
    readAll chunk positive accept reads rest = none := by
  rw [readAll, if_neg (by simp [refused])]

theorem readAll_full {reads : Nat} {rest : List Item} (accepted : accept reads rest = true)
    (full : chunk ≤ rest.length) :
    readAll chunk positive accept reads rest =
      (readAll chunk positive accept (reads + 1) (rest.drop chunk)).map (rest.take chunk ++ ·) := by
  rw [readAll, if_pos accepted, if_pos (List.length_take_of_le full)]

theorem readAll_short {reads : Nat} {rest : List Item} (accepted : accept reads rest = true)
    (short : rest.length < chunk) : readAll chunk positive accept reads rest = some rest := by
  rw [readAll, if_pos accepted, if_neg, List.take_of_length_le (Nat.le_of_lt short)]
  rw [List.length_take]
  omega

/-- A loop never invents, drops or reorders: what it returns is the whole stream. -/
theorem readAll_whole {reads : Nat} {rest output : List Item}
    (returned : readAll chunk positive accept reads rest = some output) : output = rest := by
  fun_induction readAll chunk positive accept reads rest generalizing output with
  | case1 reads rest accepted full ih =>
    obtain ⟨tail, later, joined⟩ := Option.map_eq_some_iff.mp returned
    rw [← joined, ih later, List.take_append_drop]
  | case2 reads rest accepted short =>
    rw [← Option.some.inj returned]
    apply List.take_of_length_le
    rw [List.length_take] at short
    omega
  | case3 reads rest refused => cases returned

/-- The loop returns exactly when every read up to the first short one is accepted. -/
theorem readAll_isSome_iff {reads : Nat} {rest : List Item} :
    (readAll chunk positive accept reads rest).isSome = true ↔
      ∀ index ≤ rest.length / chunk, accept (reads + index) (rest.drop (index * chunk)) = true := by
  fun_induction readAll chunk positive accept reads rest with
  | case1 reads rest accepted full ih =>
    have enough : chunk ≤ rest.length := by
      rw [List.length_take] at full
      omega
    have count : rest.length / chunk = (rest.drop chunk).length / chunk + 1 := by
      rw [List.length_drop]
      exact Nat.div_eq_sub_div positive enough
    have next (index : Nat) : accept (reads + 1 + index) ((rest.drop chunk).drop (index * chunk)) =
        accept (reads + (index + 1)) (rest.drop ((index + 1) * chunk)) := by
      rw [List.drop_drop, Nat.add_assoc, Nat.add_comm 1, Nat.succ_mul, Nat.add_comm chunk]
    rw [Option.isSome_map, ih, count]
    constructor
    · intro every index bound
      cases index with
      | zero => simpa using accepted
      | succ earlier => exact next earlier ▸ every earlier (by omega)
    · intro every index bound
      exact (next index).trans (every (index + 1) (by omega))
  | case2 reads rest accepted short =>
    have few : rest.length / chunk = 0 := by
      apply Nat.div_eq_of_lt
      rw [List.length_take] at short
      omega
    simpa [few] using accepted
  | case3 reads rest refused =>
    simp only [Option.isSome_none, Bool.false_eq_true, false_iff]
    intro every
    exact refused (by simpa using every 0 (Nat.zero_le _))

theorem readAll_eq_some_iff {reads : Nat} {rest output : List Item} :
    readAll chunk positive accept reads rest = some output ↔
      output = rest ∧
        ∀ index ≤ rest.length / chunk,
          accept (reads + index) (rest.drop (index * chunk)) = true := by
  rw [← @readAll_isSome_iff _ chunk positive accept]
  constructor
  · intro returned
    exact ⟨readAll_whole returned, by simp [returned]⟩
  · rintro ⟨rfl, returns⟩
    obtain ⟨whole, returned⟩ := Option.isSome_iff_exists.mp returns
    rw [returned, readAll_whole returned]

theorem readAll_accepting (always : ∀ reads rest, accept reads rest = true) (reads : Nat)
    (rest : List Item) : readAll chunk positive accept reads rest = some rest :=
  readAll_eq_some_iff.mpr ⟨rfl, fun _ _ => always _ _⟩

end ChunkedRead
