import Mathlib

/-!
# Sums over a family of which one member changes

A quantity that is kept over all members of a family is a sum. A step that replaces one
member changes the sum by the change of that member alone.
-/

namespace Account

variable {ι α M : Type*} [Fintype ι] [DecidableEq ι]

/-- Replacing one element changes a sum over all of them by its own change. -/
theorem sum_update [AddCommMonoid M] (g : ι → α) (i : ι) (a : α) (f : α → M) (m : M)
    (h : f a = f (g i) + m) :
    ∑ j, f (Function.update g i a j) = ∑ j, f (g j) + m := by
  have hsplit := Finset.sum_update_of_mem (Finset.mem_univ i) (fun j => f (g j)) (f a)
  have hcomp : (fun j => f (Function.update g i a j)) =
      Function.update (fun j => f (g j)) i (f a) :=
    Function.comp_update f g i a
  rw [hcomp, hsplit, h, ← Finset.add_sum_erase _ _ (Finset.mem_univ i),
    Finset.sdiff_singleton_eq_erase]
  exact add_right_comm _ _ _

/-- The same with the old and the new worth on the two sides. -/
theorem sum_update_add [AddCommMonoid M] (g : ι → α) (i : ι) (a : α) (f : α → M) :
    ∑ j, f (Function.update g i a j) + f (g i) = ∑ j, f (g j) + f a := by
  have hrest : ∑ j ∈ Finset.univ.erase i, f (Function.update g i a j) =
      ∑ j ∈ Finset.univ.erase i, f (g j) := by
    apply Finset.sum_congr rfl
    intro j hj
    rw [Function.update_of_ne (Finset.ne_of_mem_erase hj)]
  rw [← Finset.add_sum_erase _ _ (Finset.mem_univ i),
    ← Finset.add_sum_erase _ (fun j => f (g j)) (Finset.mem_univ i), hrest, Function.update_self]
  abel

/-- The same for a family whose members have different types and worths. -/
theorem sum_update_add_dep {β : ι → Type*} [AddCommMonoid M] (g : (i : ι) → β i) (i : ι)
    (a : β i) (f : (i : ι) → β i → M) :
    ∑ j, f j (Function.update g i a j) + f i (g i) = ∑ j, f j (g j) + f i a := by
  have hrest : ∑ j ∈ Finset.univ.erase i, f j (Function.update g i a j) =
      ∑ j ∈ Finset.univ.erase i, f j (g j) := by
    apply Finset.sum_congr rfl
    intro j hj
    rw [Function.update_of_ne (Finset.ne_of_mem_erase hj)]
  rw [← Finset.add_sum_erase _ _ (Finset.mem_univ i),
    ← Finset.add_sum_erase _ (fun j => f j (g j)) (Finset.mem_univ i), hrest,
    Function.update_self]
  abel

/-- A replacement of the same worth leaves the sum alone. -/
theorem sum_update_same [AddCommMonoid M] (g : ι → α) (i : ι) (a : α) (f : α → M)
    (h : f a = f (g i)) : ∑ j, f (Function.update g i a j) = ∑ j, f (g j) := by
  rw [sum_update g i a f 0 (by rw [h, add_zero]), add_zero]

/-- If all members but one grow, the sums differ at least as that one does. -/
theorem sum_add_le_sum_add [AddCommMonoid M] [PartialOrder M] [IsOrderedAddMonoid M]
    {f g : ι → M} (i : ι) (h : ∀ j, j ≠ i → f j ≤ g j) :
    ∑ j, f j + g i ≤ ∑ j, g j + f i := by
  have hrest := Finset.sum_le_sum fun j (hj : j ∈ Finset.univ.erase i) =>
    h j (Finset.ne_of_mem_erase hj)
  rw [← Finset.add_sum_erase _ f (Finset.mem_univ i),
    ← Finset.add_sum_erase _ g (Finset.mem_univ i)]
  calc f i + ∑ j ∈ Finset.univ.erase i, f j + g i
      = (f i + g i) + ∑ j ∈ Finset.univ.erase i, f j := add_right_comm _ _ _
    _ ≤ (f i + g i) + ∑ j ∈ Finset.univ.erase i, g j := by gcongr
    _ = g i + ∑ j ∈ Finset.univ.erase i, g j + f i := by abel

/-- If all members but one are the same, the sums differ as that one does. -/
theorem sum_add_eq_sum_add [AddCommMonoid M] {f g : ι → M} (i : ι) (h : ∀ j, j ≠ i → f j = g j) :
    ∑ j, f j + g i = ∑ j, g j + f i := by
  have hrest := Finset.sum_congr rfl fun j (hj : j ∈ Finset.univ.erase i) =>
    h j (Finset.ne_of_mem_erase hj)
  rw [← Finset.add_sum_erase _ f (Finset.mem_univ i),
    ← Finset.add_sum_erase _ g (Finset.mem_univ i), hrest]
  abel

/-- Replacing one member by one of less worth lowers the sum. -/
theorem sum_update_lt [AddCommMonoid M] [PartialOrder M] [IsOrderedCancelAddMonoid M] (g : ι → α)
    (i : ι) (a : α) (f : ι → α → M) (h : f i a < f i (g i)) :
    ∑ j, f j (Function.update g i a j) < ∑ j, f j (g j) := by
  apply Finset.sum_lt_sum
  · intro j _
    by_cases hj : j = i
    · subst hj
      simpa using h.le
    · simp [hj]
  · exact ⟨i, Finset.mem_univ i, by simpa using h⟩

/-- The same for two members, of which one may gain what the other one loses. -/
theorem sum_update_update_lt [AddCommMonoid M] [PartialOrder M] [IsOrderedCancelAddMonoid M]
    (g : ι → α) {i j : ι} (hne : i ≠ j) (a b : α) (f : ι → α → M)
    (h : f i a + f j b < f i (g i) + f j (g j)) :
    ∑ k, f k (Function.update (Function.update g j b) i a k) < ∑ k, f k (g k) := by
  have hj : j ∈ Finset.univ.erase i := Finset.mem_erase.mpr ⟨hne.symm, Finset.mem_univ j⟩
  have hrest : ∑ k ∈ (Finset.univ.erase i).erase j,
      f k (Function.update (Function.update g j b) i a k) =
        ∑ k ∈ (Finset.univ.erase i).erase j, f k (g k) := by
    apply Finset.sum_congr rfl
    intro k hk
    obtain ⟨hkj, hk⟩ := Finset.mem_erase.mp hk
    simp [hkj, Finset.ne_of_mem_erase hk]
  rw [← Finset.add_sum_erase _ _ (Finset.mem_univ i), ← Finset.add_sum_erase _ _ hj,
    ← Finset.add_sum_erase _ (fun k => f k (g k)) (Finset.mem_univ i),
    ← Finset.add_sum_erase _ (fun k => f k (g k)) hj, hrest, ← add_assoc, ← add_assoc]
  apply add_lt_add_left
  simpa [hne.symm] using h

end Account
