import Mathlib

/-!
# Extrema of lists that start with the same element

The maxima of two lists agree if every element of one is reached by an element of the other, and
the minima if the same is true in the dual order.
-/

namespace Extremum

variable {α : Type*} [LinearOrder α] {a : α} {l l' : List α}

/-- No element of `l` is above both `a` and all of `l'`. -/
def Below (a : α) (l l' : List α) : Prop := ∀ x ∈ l, x ≤ a ∨ ∃ y ∈ l', x ≤ y

/-- No element of `l` is below both `a` and all of `l'`. -/
def Above (a : α) (l l' : List α) : Prop := ∀ x ∈ l, a ≤ x ∨ ∃ y ∈ l', y ≤ x

theorem max_le_max_iff :
    (a :: l).max (List.cons_ne_nil a l) ≤ (a :: l').max (List.cons_ne_nil a l') ↔ Below a l l' := by
  constructor
  · intro hle x hx
    have hbound : x ≤ (a :: l').max (List.cons_ne_nil a l') :=
      (List.le_max_of_mem (List.mem_cons_of_mem a hx)).trans hle
    obtain hmax | hmax := List.mem_cons.mp (List.max_mem (List.cons_ne_nil a l'))
    · exact .inl (hmax ▸ hbound)
    · exact .inr ⟨_, hmax, hbound⟩
  · intro hbelow
    rw [List.max_le_iff]
    intro x hx
    have hfirst : a ≤ (a :: l').max (List.cons_ne_nil a l') := List.le_max_of_mem List.mem_cons_self
    obtain rfl | hx := List.mem_cons.mp hx
    · exact hfirst
    · obtain hle | ⟨y, hy, hle⟩ := hbelow x hx
      · exact hle.trans hfirst
      · exact hle.trans (List.le_max_of_mem (List.mem_cons_of_mem a hy))

theorem max_eq_max_iff :
    (a :: l).max (List.cons_ne_nil a l) = (a :: l').max (List.cons_ne_nil a l') ↔
      Below a l l' ∧ Below a l' l := by
  rw [le_antisymm_iff, max_le_max_iff, max_le_max_iff]

theorem min_eq_min_iff :
    (a :: l).min (List.cons_ne_nil a l) = (a :: l').min (List.cons_ne_nil a l') ↔
      Above a l l' ∧ Above a l' l :=
  max_eq_max_iff (α := αᵒᵈ)

end Extremum
