import Mathlib

/-!
# Reachable states of a partial step function

A system takes a step by performing an action that its step function allows. Runs
can be narrowed by a condition on each step, which says which schedules or inputs a
result is about. Invariants are proved once for the initial state and once for a
step, and an executable run on a list of actions shows that a state is reachable.
-/

namespace Transition

variable {σ α : Type*}

/-- States reached from `s₀` by steps that satisfy `ok`. -/
inductive Reach (step : σ → α → Option σ) (ok : σ → α → Prop) (s₀ : σ) : σ → Prop where
  | init : Reach step ok s₀ s₀
  | step {s s' a} : Reach step ok s₀ s → ok s a → step s a = some s' → Reach step ok s₀ s'

/-- No condition on the steps. -/
def anyStep (_ : σ) (_ : α) : Prop := True

instance (s : σ) (a : α) : Decidable (anyStep s a) := isTrue trivial

/-- The step function with a condition on the steps built in. -/
def guarded (step : σ → α → Option σ) (ok : σ → α → Prop) [∀ s a, Decidable (ok s a)]
    (s : σ) (a : α) : Option σ :=
  if ok s a then step s a else none

/-- Perform the actions in order; `none` if one of them is not possible. -/
def run (step : σ → α → Option σ) : List α → σ → Option σ
  | [], s => some s
  | a :: rest, s => (step s a).bind (run step rest)

namespace Reach

variable {step : σ → α → Option σ} {ok : σ → α → Prop} {s₀ s : σ}

/-- What holds at first and survives every step holds in every reachable state. -/
theorem invariant {Inv : σ → Prop} (h : Reach step ok s₀ s) (hinit : Inv s₀)
    (hstep : ∀ s a s', Inv s → ok s a → step s a = some s' → Inv s') : Inv s := by
  induction h with
  | init => exact hinit
  | step _ hok hs ih => exact hstep _ _ _ ih hok hs

/-- A weaker condition on the steps allows more runs. -/
theorem mono {ok' : σ → α → Prop} (h : Reach step ok s₀ s) (hok : ∀ s a, ok s a → ok' s a) :
    Reach step ok' s₀ s := by
  induction h with
  | init => exact .init
  | step _ hstep hs ih => exact .step ih (hok _ _ hstep) hs

theorem trans {s₁ : σ} (h₁ : Reach step ok s₀ s₁) (h₂ : Reach step ok s₁ s) :
    Reach step ok s₀ s := by
  induction h₂ with
  | init => exact h₁
  | step _ hok hs ih => exact .step ih hok hs

end Reach

/-- The first step of a run. -/
theorem run_cons {step : σ → α → Option σ} {ok : σ → α → Prop} [∀ s a, Decidable (ok s a)]
    {s₀ s : σ} {a : α} {rest : List α} (h : run (guarded step ok) (a :: rest) s₀ = some s) :
    ∃ s₁, ok s₀ a ∧ step s₀ a = some s₁ ∧ run (guarded step ok) rest s₁ = some s := by
  obtain ⟨s₁, hstep, hrest⟩ := Option.bind_eq_some_iff.mp h
  unfold guarded at hstep
  split at hstep
  · exact ⟨s₁, ‹_›, hstep, hrest⟩
  · cases hstep

/-- A run that succeeds ends in a reachable state. -/
theorem reach_of_run {step : σ → α → Option σ} {ok : σ → α → Prop} [∀ s a, Decidable (ok s a)]
    {s₀ s : σ} (actions : List α) (h : run (guarded step ok) actions s₀ = some s) :
    Reach step ok s₀ s := by
  induction actions generalizing s₀ with
  | nil =>
      cases h
      exact .init
  | cons a rest ih =>
      obtain ⟨s₁, hok, hstep, hrest⟩ := run_cons h
      exact (Reach.step .init hok hstep).trans (ih hrest)

/-- The same with a test of the last state, so that a long run can be evaluated. -/
theorem exists_reach_of_run {step : σ → α → Option σ} {ok : σ → α → Prop}
    [∀ s a, Decidable (ok s a)] {s₀ : σ} {P : σ → Prop} [DecidablePred P] (actions : List α)
    (h : (run (guarded step ok) actions s₀).any (fun s => decide (P s)) = true) :
    ∃ s, Reach step ok s₀ s ∧ P s := by
  obtain ⟨s, hrun, hP⟩ := (Option.any_eq_true _ _).mp h
  exact ⟨s, reach_of_run actions hrun, of_decide_eq_true hP⟩

/-- If every step from a reachable state lowers a rank, a run can be continued to a state that
it cannot leave. -/
theorem exists_reach_stuck {step : σ → α → Option σ} {ok : σ → α → Prop} {s₀ s₁ : σ}
    (rank : σ → Nat)
    (hrank : ∀ s a s', Reach step ok s₀ s → ok s a → step s a = some s' → rank s' < rank s)
    (hreach : Reach step ok s₀ s₁) :
    ∃ s, Reach step ok s₀ s ∧ ∀ a, ok s a → step s a = none := by
  induction hr : rank s₁ using Nat.strong_induction_on generalizing s₁ with
  | _ n ih =>
    by_cases hstuck : ∀ a, ok s₁ a → step s₁ a = none
    · exact ⟨s₁, hreach, hstuck⟩
    · push Not at hstuck
      obtain ⟨a, hok, hstep⟩ := hstuck
      obtain ⟨s₂, hs₂⟩ := Option.ne_none_iff_exists'.mp hstep
      have hlower := hrank s₁ a s₂ hreach hok hs₂
      exact ih (rank s₂) (hr ▸ hlower) (hreach.step hok hs₂) rfl

/-- If every step from a reachable state lowers a rank, the rank bounds the length of every
run. -/
theorem length_add_rank_le {step : σ → α → Option σ} {ok : σ → α → Prop}
    [∀ s a, Decidable (ok s a)] {s₀ s₁ s : σ} {rank : σ → Nat}
    (hrank : ∀ s a s', Reach step ok s₀ s → ok s a → step s a = some s' → rank s' < rank s)
    (hreach : Reach step ok s₀ s₁) (actions : List α)
    (h : run (guarded step ok) actions s₁ = some s) :
    actions.length + rank s ≤ rank s₁ := by
  induction actions generalizing s₁ with
  | nil =>
      cases h
      simp
  | cons a rest ih =>
      obtain ⟨s₂, hok, hstep, hrest⟩ := run_cons h
      have hlower := hrank s₁ a s₂ hreach hok hstep
      have hle := ih (hreach.step hok hstep) hrest
      rw [List.length_cons]
      omega

end Transition
