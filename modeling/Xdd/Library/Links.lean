import Mathlib

/-!
# Rings of linked cells

Every cell has at most one successor. Following the links from a cell either ends or comes into
a ring. On a ring every cell has one predecessor, and a cell that is spliced in behind another
one joins its ring.
-/

namespace Links

variable {α : Type*}

/-- The cell that is this many links away. -/
def follow (next : α → Option α) : Nat → α → Option α
  | 0, t => some t
  | k + 1, t => (next t).bind (follow next k)

def Reaches (next : α → Option α) (t u : α) : Prop := ∃ k, follow next k t = some u

/-- The links lead back to the cell, and to different cells until then. -/
def OnRing (next : α → Option α) (t : α) : Prop :=
  ∃ k, follow next (k + 1) t = some t ∧
    ∀ i j, i ≤ k → j ≤ k → follow next i t = follow next j t → i = j

variable {next next' : α → Option α} {a b c t u m s : α}

theorem follow_add (i j : Nat) (t : α) :
    follow next (i + j) t = (follow next i t).bind (follow next j) := by
  induction i generalizing t with
  | zero => simp [follow]
  | succ i ih =>
    rw [Nat.succ_add, follow, follow, Option.bind_assoc]
    congr 1
    funext u
    exact ih u

namespace Reaches

theorem refl (next : α → Option α) (t : α) : Reaches next t t := ⟨0, rfl⟩

theorem of_next (h : next t = some u) : Reaches next t u := ⟨1, by simp [follow, h]⟩

theorem trans (h₁ : Reaches next t u) (h₂ : Reaches next u c) : Reaches next t c := by
  obtain ⟨i, hi⟩ := h₁
  obtain ⟨j, hj⟩ := h₂
  exact ⟨i + j, by rw [follow_add, hi, Option.bind_some, hj]⟩

/-- A set of cells that the links do not leave. -/
theorem mem_of_closed {P : α → Prop} (h : Reaches next t u) (ht : P t)
    (hclosed : ∀ a b, P a → next a = some b → P b) : P u := by
  obtain ⟨k, hk⟩ := h
  induction k generalizing t with
  | zero =>
    cases hk
    exact ht
  | succ k ih =>
    obtain ⟨b, hb, hrest⟩ := Option.bind_eq_some_iff.mp hk
    exact ih (hclosed t b ht hb) hrest

/-- A cell `s` without a successor is put behind `m`. -/
theorem splice (h : Reaches next t u) (hfree : next s = none) (hm : next m = some c)
    (hm' : next' m = some s) (hs' : next' s = some c)
    (hother : ∀ a, a ≠ m → a ≠ s → next' a = next a) : Reaches next' t u := by
  obtain ⟨k, hk⟩ := h
  induction k generalizing t with
  | zero =>
    cases hk
    exact .refl next' _
  | succ k ih =>
    obtain ⟨b, hb, hrest⟩ := Option.bind_eq_some_iff.mp hk
    have hstep : Reaches next' t b := by
      by_cases htm : t = m
      · subst htm
        obtain rfl : c = b := Option.some.inj (hm.symm.trans hb)
        exact (of_next hm').trans (of_next hs')
      · have hts : t ≠ s := by
          rintro rfl
          rw [hfree] at hb
          cases hb
        exact of_next ((hother t htm hts).trans hb)
    exact hstep.trans (ih hrest)

/-- The first way back is a ring. -/
theorem onRing (hnext : next t = some u) (h : Reaches next u t) : OnRing next t := by
  have hback : ∃ k, follow next (k + 1) t = some t := by
    obtain ⟨k, hk⟩ := h
    exact ⟨k, by simp [follow, hnext, hk]⟩
  classical
  refine ⟨Nat.find hback, Nat.find_spec hback, ?_⟩
  -- two equal cells on the way would give a shorter way back
  have hlt : ∀ i j, i < j → j ≤ Nat.find hback → follow next i t ≠ follow next j t := by
    intro i j hij hj heq
    obtain ⟨rest, hrest⟩ := Nat.exists_eq_add_of_le hj
    have hspec := Nat.find_spec hback
    rw [hrest, Nat.add_assoc, follow_add, ← heq, ← follow_add] at hspec
    exact Nat.find_min hback (by omega : i + rest < Nat.find hback) hspec
  intro i j hi hj heq
  obtain hij | rfl | hij := Nat.lt_trichotomy i j
  · exact absurd heq (hlt i j hij hj)
  · rfl
  · exact absurd heq.symm (hlt j i hij hi)

end Reaches

namespace OnRing

theorem reaches_of_next (h : OnRing next t) (hnext : next t = some u) : Reaches next u t := by
  obtain ⟨k, hk, -⟩ := h
  exact ⟨k, by simpa [follow, hnext] using hk⟩

/-- On a ring a cell has one predecessor. -/
theorem pred_unique (hc : OnRing next c) (ha : OnRing next a) (hb : OnRing next b)
    (hac : next a = some c) (hbc : next b = some c) : a = b := by
  obtain ⟨k, hk, hdistinct⟩ := hc
  have hperiod : ∀ n i, follow next (i + n * (k + 1)) c = follow next i c := by
    intro n
    induction n with
    | zero => simp
    | succ n ih =>
      intro i
      rw [show i + (n + 1) * (k + 1) = k + 1 + (i + n * (k + 1)) by ring, follow_add, hk,
        Option.bind_some, ih]
  have hlast : ∀ {d}, OnRing next d → next d = some c → follow next k c = some d := by
    intro d hd hdc
    obtain ⟨i, hi⟩ := hd.reaches_of_next hdc
    have hreturn : follow next (i + 1) c = some c := by
      rw [follow_add, hi, Option.bind_some]
      simp [follow, hdc]
    have hmod : (i + 1) % (k + 1) = 0 := by
      apply hdistinct _ 0 (Nat.le_of_lt_succ (Nat.mod_lt _ k.succ_pos)) k.zero_le
      rw [← hperiod ((i + 1) / (k + 1)), Nat.mod_add_div', hreturn]
      rfl
    obtain ⟨n, hn⟩ := Nat.dvd_of_mod_eq_zero hmod
    have hi' : i = k + (n - 1) * (k + 1) := by
      cases n with
      | zero => omega
      | succ n =>
        rw [Nat.add_sub_cancel]
        linarith
    rw [← hi, hi', hperiod]
  exact Option.some.inj ((hlast ha hac).symm.trans (hlast hb hbc))

end OnRing

end Links
