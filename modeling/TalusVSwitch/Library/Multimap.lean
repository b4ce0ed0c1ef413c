import Mathlib.Data.List.Sort
import Mathlib.Data.List.TakeWhile

universe u v

/-- Entries in the order of their keys, those of one key in the order they were inserted. -/
@[ext] structure Multimap (Key : Type u) (Value : Type v) [LinearOrder Key] where
  entries : List (Key × Value)
  sorted : entries.Pairwise (fun entry later => entry.1 ≤ later.1)

namespace Multimap

variable {Key : Type u} {Value : Type v} [LinearOrder Key]

/-- An entry goes behind those that have its key already. -/
def inserted (key : Key) (value : Value) (entries : List (Key × Value)) : List (Key × Value) :=
  entries.orderedInsert (fun entry other => entry.1 < other.1) (key, value)

theorem inserted_perm (key : Key) (value : Value) (entries : List (Key × Value)) :
    (inserted key value entries).Perm ((key, value) :: entries) :=
  List.perm_orderedInsert _ _ _

theorem inserted_sorted (key : Key) (value : Value) {entries : List (Key × Value)}
    (sorted : entries.Pairwise (fun entry later => entry.1 ≤ later.1)) :
    (inserted key value entries).Pairwise (fun entry later => entry.1 ≤ later.1) := by
  induction entries with
  | nil => exact List.pairwise_singleton _ _
  | cons head rest ih =>
    obtain ⟨first, later⟩ := List.pairwise_cons.mp sorted
    rw [inserted, List.orderedInsert_cons]
    split_ifs with before
    · refine List.pairwise_cons.mpr ⟨?_, sorted⟩
      intro other member
      rcases List.mem_cons.mp member with rfl | behind
      · exact le_of_lt before
      · exact le_trans (le_of_lt before) (first other behind)
    · refine List.pairwise_cons.mpr ⟨?_, ih later⟩
      intro other member
      rcases List.mem_cons.mp ((inserted_perm key value rest).mem_iff.mp member) with rfl | behind
      · exact not_lt.mp before
      · exact first other behind

instance : EmptyCollection (Multimap Key Value) := ⟨⟨[], List.Pairwise.nil⟩⟩

@[simp] theorem entries_empty : (∅ : Multimap Key Value).entries = [] := rfl

def emplace (map : Multimap Key Value) (key : Key) (value : Value) : Multimap Key Value :=
  ⟨inserted key value map.entries, inserted_sorted key value map.sorted⟩

/-- The entries of a range, one by one. -/
def insert (map : Multimap Key Value) (range : List (Key × Value)) : Multimap Key Value :=
  range.foldl (fun map entry => map.emplace entry.1 entry.2) map

/-- The entries up to a key. -/
def upTo (map : Multimap Key Value) (key : Key) : List (Key × Value) :=
  map.entries.takeWhile (fun entry => entry.1 ≤ key)

/-- What is left when the entries up to a key are erased. -/
def beyond (map : Multimap Key Value) (key : Key) : Multimap Key Value where
  entries := map.entries.dropWhile (fun entry => entry.1 ≤ key)
  sorted := map.sorted.sublist (List.dropWhile_sublist _)

variable {map : Multimap Key Value}

theorem emplace_perm (key : Key) (value : Value) :
    (map.emplace key value).entries.Perm ((key, value) :: map.entries) :=
  inserted_perm key value map.entries

theorem insert_perm (range : List (Key × Value)) :
    (map.insert range).entries.Perm (range ++ map.entries) := by
  induction range generalizing map with
  | nil => exact .refl _
  | cons entry rest ih =>
    rw [insert, List.foldl_cons]
    calc ((map.emplace entry.1 entry.2).insert rest).entries
        |>.Perm (rest ++ (map.emplace entry.1 entry.2).entries) := ih
      _ |>.Perm (rest ++ (entry :: map.entries)) := (emplace_perm entry.1 entry.2).append_left rest
      _ |>.Perm (entry :: rest ++ map.entries) := List.perm_middle

theorem upTo_append_beyond (key : Key) : map.upTo key ++ (map.beyond key).entries = map.entries :=
  List.takeWhile_append_dropWhile

theorem le_of_mem_upTo {key : Key} {entry : Key × Value} (member : entry ∈ map.upTo key) :
    entry.1 ≤ key := by
  simpa using List.mem_takeWhile_imp member

theorem first_le {first : Key × Value} (front : map.entries.head? = some first)
    {entry : Key × Value} (member : entry ∈ map.entries) : first.1 ≤ entry.1 := by
  obtain ⟨rest, shape⟩ := List.head?_eq_some_iff.mp front
  have sorted := map.sorted
  rw [shape] at sorted member
  rcases List.mem_cons.mp member with rfl | behind
  · exact le_refl _
  · exact (List.pairwise_cons.mp sorted).1 entry behind

theorem lt_of_mem_beyond {key : Key} {entry : Key × Value}
    (member : entry ∈ (map.beyond key).entries) : key < entry.1 := by
  cases front : (map.beyond key).entries.head? with
  | none =>
    rw [List.head?_eq_none_iff.mp front] at member
    cases member
  | some first =>
    have late : key < first.1 := by
      have stopped := List.head?_dropWhile_not (fun entry => decide (entry.1 ≤ key)) map.entries
      rw [beyond] at front
      rw [front] at stopped
      simpa using stopped
    exact lt_of_lt_of_le late (first_le front member)

end Multimap
