import Mathlib.Data.List.Basic
import Mathlib.Data.List.Infix

namespace Packing

universe u
variable {Item : Type u}

/-- The packs of a list of items, from the pack begun so far. The last one is whatever
remains, also where nothing does. -/
def pack (full : List Item → Bool) (begun : List Item) : List Item → List (List Item)
  | [] => [begun]
  | item :: rest =>
    if full (begun ++ [item]) then (begun ++ [item]) :: pack full [] rest
    else pack full (begun ++ [item]) rest

/-- No pack that is full can be filled up further. -/
def Fits (full : List Item → Bool) (items : List Item) : Prop :=
  ∀ front back, items = front ++ back → back ≠ [] → full front = false

/-- A pack filled by its last item. -/
def Filled (full : List Item → Bool) (items : List Item) : Prop :=
  full items = true ∧ Fits full items

variable {full : List Item → Bool}

theorem pack_flatten (begun items : List Item) : (pack full begun items).flatten = begun ++ items := by
  induction items generalizing begun with
  | nil => simp [pack]
  | cons item rest ih =>
    rw [pack]
    split <;> simp [ih]

theorem fits_nil : Fits full [] := by
  intro front back split nonempty
  exact absurd (List.append_eq_nil_iff.mp split.symm).2 nonempty

theorem Fits.concat {items : List Item} (fits : Fits full items) (room : full items = false)
    (item : Item) : Fits full (items ++ [item]) := by
  intro front back split nonempty
  obtain ⟨init, last, rfl⟩ : ∃ init last, back = init ++ [last] :=
    ⟨back.dropLast, back.getLast nonempty, (List.dropLast_append_getLast nonempty).symm⟩
  rw [← List.append_assoc] at split
  obtain ⟨same, _⟩ := List.append_inj' split rfl
  by_cases whole : init = []
  · rw [whole, List.append_nil] at same
    rwa [← same]
  · exact fits front init same whole

theorem pack_filled {begun run : List Item} (filled : Filled full (begun ++ run)) (more : run ≠ [])
    (rest : List Item) : pack full begun (run ++ rest) = (begun ++ run) :: pack full [] rest := by
  induction run generalizing begun with
  | nil => exact absurd rfl more
  | cons item tail ih =>
    rw [List.cons_append, pack]
    have shape : begun ++ item :: tail = begun ++ [item] ++ tail := by simp
    by_cases last : tail = []
    · subst last
      rw [if_pos filled.1]
      rfl
    · have room := filled.2 (begun ++ [item]) tail shape last
      rw [if_neg (by simp [room]), ih (shape ▸ filled) last, shape]

theorem runs_of_exhausted (space : full [] = false) {begun items : List Item}
    (fits : Fits full begun) (room : full begun = false) (exhausted : [] ∈ pack full begun items) :
    ∃ runs : List (List Item), runs.flatten = begun ++ items ∧ ∀ run ∈ runs, Filled full run := by
  induction items generalizing begun with
  | nil =>
    rw [pack, List.mem_singleton] at exhausted
    exact ⟨[], by simp [← exhausted]⟩
  | cons item rest ih =>
    have longer := fits.concat room item
    rw [pack] at exhausted
    split at exhausted
    · rename_i closed
      rcases List.mem_cons.mp exhausted with same | later
      · simp at same
      · obtain ⟨runs, joined, filled⟩ := ih fits_nil space later
        refine ⟨(begun ++ [item]) :: runs, by simp [joined], ?_⟩
        intro run member
        rcases List.mem_cons.mp member with same | other
        · rw [same]
          exact ⟨closed, longer⟩
        · exact filled run other
    · rename_i room'
      obtain ⟨runs, joined, filled⟩ := ih longer (Bool.eq_false_iff.mpr room') exhausted
      exact ⟨runs, by simp [joined], filled⟩

/-- The last pack is empty exactly when the items can be cut into filled packs. -/
theorem pack_exhausted (space : full [] = false) {items : List Item} :
    [] ∈ pack full [] items ↔
      ∃ runs : List (List Item), runs.flatten = items ∧ ∀ run ∈ runs, Filled full run := by
  constructor
  · exact runs_of_exhausted space fits_nil space
  · rintro ⟨runs, rfl, filled⟩
    induction runs with
    | nil => simp [pack]
    | cons run rest ih =>
      obtain ⟨first, later⟩ := List.forall_mem_cons.mp filled
      have more : run ≠ [] := by
        rintro rfl
        simp [Filled, space] at first
      rw [List.flatten_cons, pack_filled (by simpa using first) more]
      exact List.mem_cons_of_mem _ (ih later)

end Packing
