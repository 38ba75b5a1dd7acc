import Mathlib

/-!
# Resources with busy flags

A pool marks the resources that are in use with a flag, and each user has at most one of them.
The flags and the users agree if the flag of a resource is set exactly while some user has it,
and no two users have the same one. Taking a free resource and giving one back keep this.
-/

namespace Ownership

variable {ι ρ : Type*}

/-- The flags say which resources the users have. -/
structure Agree (busy : ρ → Bool) (held : ι → Option ρ) : Prop where
  busy_iff : ∀ r, busy r ↔ ∃ i, held i = some r
  unique : ∀ {i j r}, held i = some r → held j = some r → i = j

namespace Agree

variable {busy : ρ → Bool} {held : ι → Option ρ} {i : ι} {r : ρ}

theorem of_none : Agree (fun _ : ρ => false) (fun _ : ι => none) where
  busy_iff := by simp
  unique := by simp

theorem existsUnique (h : Agree busy held) (hr : busy r) : ∃! i, held i = some r := by
  obtain ⟨i, hi⟩ := (h.busy_iff r).mp hr
  exact ⟨i, hi, fun _ hj => h.unique hj hi⟩

/-- A user goes on with what it has. -/
theorem keep [DecidableEq ι] (h : Agree busy held) {x : Option ρ} (hx : x = held i) :
    Agree busy (Function.update held i x) := by
  rw [hx, Function.update_eq_self]
  exact h

variable [DecidableEq ι] [DecidableEq ρ]

/-- A user takes a free resource. -/
theorem take (h : Agree busy held) (hfree : busy r = false) (hi : held i = none) :
    Agree (Function.update busy r true) (Function.update held i (some r)) where
  busy_iff := by
    intro q
    by_cases hq : q = r
    · subst hq
      simp only [Function.update_self, true_iff]
      exact ⟨i, Function.update_self ..⟩
    · rw [Function.update_of_ne hq, h.busy_iff]
      refine exists_congr fun j => ?_
      by_cases hj : j = i
      · simp [hj, hi, Ne.symm hq]
      · rw [Function.update_of_ne hj]
  unique := by
    have hnone : ∀ j, held j ≠ some r := by
      intro j hj
      simpa [hfree] using (h.busy_iff r).mpr ⟨j, hj⟩
    intro j k q hj hk
    by_cases hji : j = i <;> by_cases hki : k = i
    · rw [hji, hki]
    · rw [hji, Function.update_self] at hj
      rw [Function.update_of_ne hki, ← hj] at hk
      exact absurd hk (hnone k)
    · rw [hki, Function.update_self] at hk
      rw [Function.update_of_ne hji, ← hk] at hj
      exact absurd hj (hnone j)
    · rw [Function.update_of_ne hji] at hj
      rw [Function.update_of_ne hki] at hk
      exact h.unique hj hk

/-- A user gives its resource back. -/
theorem give (h : Agree busy held) (hi : held i = some r) :
    Agree (Function.update busy r false) (Function.update held i none) where
  busy_iff := by
    intro q
    by_cases hq : q = r
    · subst hq
      simp only [Function.update_self, Bool.false_eq_true, false_iff]
      rintro ⟨j, hj⟩
      by_cases hji : j = i
      · simp [hji] at hj
      · rw [Function.update_of_ne hji] at hj
        exact hji (h.unique hj hi)
    · rw [Function.update_of_ne hq, h.busy_iff]
      refine exists_congr fun j => ?_
      by_cases hj : j = i
      · simp [hj, hi, Ne.symm hq]
      · rw [Function.update_of_ne hj]
  unique := by
    intro j k q hj hk
    by_cases hji : j = i
    · simp [hji] at hj
    · by_cases hki : k = i
      · simp [hki] at hk
      · rw [Function.update_of_ne hji] at hj
        rw [Function.update_of_ne hki] at hk
        exact h.unique hj hk

end Agree

end Ownership
