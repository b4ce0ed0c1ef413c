import Mathlib.Data.List.Basic

namespace Numeral

def value (base : Nat) (digits : List Nat) : Nat :=
  digits.foldl (fun total digit => base * total + digit) 0

theorem value_append_singleton (base : Nat) (front : List Nat) (digit : Nat) :
    value base (front ++ [digit]) = base * value base front + digit := by
  simp only [value, List.foldl_append, List.foldl_cons, List.foldl_nil]

/-- Reading the digits a number is written with gives the number back. -/
theorem value_toDigits {base : Nat} (large : 1 < base) {read : Char → Nat}
    (digit : ∀ value < base, read value.digitChar = value) (number : Nat) :
    value base ((Nat.toDigits base number).map read) = number := by
  induction number using Nat.strongRecOn with
  | ind number ih =>
    rw [Nat.toDigits_eq_if large]
    split
    · rename_i below
      simp [value, digit number below]
    · rename_i above
      have smaller : number / base < number := Nat.div_lt_self (by omega) large
      have rest : number % base < base := Nat.mod_lt _ (by omega)
      rw [List.map_append, List.map_singleton, value_append_singleton, ih _ smaller, digit _ rest]
      exact Nat.div_add_mod number base

theorem mem_toDigits {base : Nat} (large : 1 < base) {number : Nat} {char : Char}
    (member : char ∈ Nat.toDigits base number) : ∃ value < base, char = value.digitChar := by
  induction number using Nat.strongRecOn with
  | ind number ih =>
    rw [Nat.toDigits_eq_if large] at member
    split at member
    · rename_i below
      exact ⟨number, below, List.mem_singleton.mp member⟩
    · rename_i above
      have smaller : number / base < number := Nat.div_lt_self (by omega) large
      rcases List.mem_append.mp member with front | last
      · exact ih _ smaller front
      · exact ⟨number % base, Nat.mod_lt _ (by omega), List.mem_singleton.mp last⟩

end Numeral
