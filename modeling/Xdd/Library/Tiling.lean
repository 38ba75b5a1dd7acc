import Mathlib

/-!
# Consecutive half-open cells

A monotone sequence of boundaries cuts a linear order into the cells
`[b k, b (k + 1))`. Distinct cells never meet, and the first `n` of them fill
exactly the stretch from the first boundary to the `n`th.
-/

namespace Tiling

variable {α : Type*} [LinearOrder α]

/-- The `k`th cell between the boundaries `b`. -/
def cell (b : Nat → α) (k : Nat) : Set α := Set.Ico (b k) (b (k + 1))

variable {b : Nat → α}

theorem disjoint_cell (hb : Monotone b) {i j : Nat} (hij : i ≠ j) :
    Disjoint (cell b i) (cell b j) :=
  hb.pairwise_disjoint_on_Ico_succ hij

/-- The first `n` cells cover exactly the points between the outer boundaries. -/
theorem exists_mem_cell_iff (hb : Monotone b) (n : Nat) (x : α) :
    (∃ k < n, x ∈ cell b k) ↔ b 0 ≤ x ∧ x < b n := by
  induction n with
  | zero =>
      constructor
      · rintro ⟨k, hk, -⟩
        omega
      · rintro ⟨hlow, hhigh⟩
        exact absurd hhigh (not_lt.mpr hlow)
  | succ n ih =>
      have hmono : b 0 ≤ b n := hb (Nat.zero_le n)
      constructor
      · rintro ⟨k, hk, hlow, hhigh⟩
        exact ⟨(hb (Nat.zero_le k)).trans hlow, hhigh.trans_le (hb (by omega))⟩
      · rintro ⟨hlow, hhigh⟩
        rcases lt_or_ge x (b n) with hlt | hge
        · obtain ⟨k, hk, hmem⟩ := ih.mpr ⟨hlow, hlt⟩
          exact ⟨k, by omega, hmem⟩
        · exact ⟨n, by omega, hge, hhigh⟩

end Tiling
