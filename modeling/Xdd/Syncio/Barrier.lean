import Xdd.Library.Account
import Xdd.Library.Transition

/-!
# The syncio barrier

With `-syncio n` every target enters a barrier for all targets before each operation whose
number is a multiple of `n`. A target goes by its own operation number, and it leaves the
loop of the pass when its own operations are issued. At the end of a pass the targets wait
for each other in the endpass barrier.

A worker is located before the barrier is entered, and a limit, cancel or abort may end the
loop after it. The barriers between two passes are taken together.
-/

namespace Xdd.Syncio

structure Config where
  targets : Nat
  ops : Fin targets → Nat
  queueDepth : Fin targets → Nat
  queueDepth_pos : ∀ t, 0 < queueDepth t
  syncio : Nat
  syncio_pos : 0 < syncio
  passes : Nat

/-- Where a target thread is. -/
inductive Phase where
  /-- at the head of `xdd_target_pass_loop` -/
  | loop
  /-- has located a worker and comes to `xdd_syncio_before_io_op` -/
  | syncio
  /-- waits in `main_targets_syncio_barrier` -/
  | blocked
  /-- at the tests behind the barrier -/
  | testing
  /-- waits for its workers -/
  | collecting
  /-- waits in `results_targets_endpass_barrier` -/
  | endpass
deriving DecidableEq, Repr

/-- `issued` is `tc_current_op_number`, `outstanding` are the workers with a task. `rounds`
records how often the barrier has let the target through in this pass. -/
structure Target where
  phase : Phase
  issued : Nat
  outstanding : Nat
  rounds : Nat
deriving DecidableEq, Repr

structure State (cfg : Config) where
  pass : Nat
  target : Fin cfg.targets → Target

/-- A target at the beginning of a pass. -/
def Target.start : Target where
  phase := .loop
  issued := 0
  outstanding := 0
  rounds := 0

def init (cfg : Config) : State cfg where
  pass := 0
  target := fun _ => .start

inductive Action (cfg : Config) where
  /-- the next step of a target thread -/
  | advance (t : Fin cfg.targets)
  /-- a limit, cancel or abort is met at the tests -/
  | limit (t : Fin cfg.targets)
  /-- a worker finishes its task -/
  | complete (t : Fin cfg.targets)
  | nextPass

variable {cfg : Config}

namespace State

def setTarget (s : State cfg) (t : Fin cfg.targets) (target : Target) : State cfg :=
  { s with target := Function.update s.target t target }

def setPhase (s : State cfg) (t : Fin cfg.targets) (phase : Phase) : State cfg :=
  s.setTarget t { s.target t with phase := phase }

/-- The barrier opens. -/
def release (s : State cfg) : State cfg :=
  { s with target := fun t =>
      { s.target t with phase := .testing, rounds := (s.target t).rounds + 1 } }

/-- `xdd_syncio_before_io_op`: the last target to enter the barrier opens it. -/
def syncioBeforeIoOp (s : State cfg) (t : Fin cfg.targets) : State cfg :=
  if 1 < cfg.targets ∧ (s.target t).issued % cfg.syncio = 0 then
    if ∀ t', t' ≠ t → (s.target t').phase = .blocked then s.release else s.setPhase t .blocked
  else s.setPhase t .testing

/-- Set up the task and let the worker go. -/
def issue (s : State cfg) (t : Fin cfg.targets) : State cfg :=
  s.setTarget t { s.target t with
    phase := .loop
    issued := (s.target t).issued + 1
    outstanding := (s.target t).outstanding + 1 }

end State

def step (s : State cfg) : Action cfg → Option (State cfg)
  | .advance t =>
    match (s.target t).phase with
    | .loop =>
      if (s.target t).issued = cfg.ops t then some (s.setPhase t .collecting)
      else if (s.target t).outstanding < cfg.queueDepth t then some (s.setPhase t .syncio)
      else none
    | .syncio => some (s.syncioBeforeIoOp t)
    | .blocked => none
    | .testing => some (s.issue t)
    | .collecting =>
      if (s.target t).outstanding = 0 then some (s.setPhase t .endpass) else none
    | .endpass => none
  | .limit t =>
    if (s.target t).phase = .testing then some (s.setPhase t .collecting) else none
  | .complete t =>
    if 0 < (s.target t).outstanding then
      some (s.setTarget t { s.target t with outstanding := (s.target t).outstanding - 1 })
    else none
  | .nextPass =>
    if (∀ t, (s.target t).phase = .endpass) ∧ s.pass + 1 < cfg.passes then
      some { s with pass := s.pass + 1, target := fun _ => .start }
    else none

/-- The states that a run can come to. -/
def Reachable (s : State cfg) : Prop := Transition.Reach step Transition.anyStep (init cfg) s

/-- The steps, each with what it needs. -/
inductive Step (s : State cfg) : Action cfg → State cfg → Prop where
  | finish (t : Fin cfg.targets) (ht : (s.target t).phase = .loop)
      (hops : (s.target t).issued = cfg.ops t) : Step s (.advance t) (s.setPhase t .collecting)
  | locate (t : Fin cfg.targets) (ht : (s.target t).phase = .loop)
      (hops : (s.target t).issued ≠ cfg.ops t) : Step s (.advance t) (s.setPhase t .syncio)
  | pass (t : Fin cfg.targets) (ht : (s.target t).phase = .syncio)
      (hno : ¬ (1 < cfg.targets ∧ (s.target t).issued % cfg.syncio = 0)) :
      Step s (.advance t) (s.setPhase t .testing)
  | release (t : Fin cfg.targets) (ht : (s.target t).phase = .syncio)
      (hin : 1 < cfg.targets ∧ (s.target t).issued % cfg.syncio = 0)
      (hall : ∀ t', t' ≠ t → (s.target t').phase = .blocked) : Step s (.advance t) s.release
  | block (t : Fin cfg.targets) (ht : (s.target t).phase = .syncio)
      (hin : 1 < cfg.targets ∧ (s.target t).issued % cfg.syncio = 0)
      (hsome : ¬ ∀ t', t' ≠ t → (s.target t').phase = .blocked) :
      Step s (.advance t) (s.setPhase t .blocked)
  | issue (t : Fin cfg.targets) (ht : (s.target t).phase = .testing) :
      Step s (.advance t) (s.issue t)
  | collected (t : Fin cfg.targets) (ht : (s.target t).phase = .collecting) :
      Step s (.advance t) (s.setPhase t .endpass)
  | limit (t : Fin cfg.targets) (ht : (s.target t).phase = .testing) :
      Step s (.limit t) (s.setPhase t .collecting)
  | complete (t : Fin cfg.targets) (ht : 0 < (s.target t).outstanding) :
      Step s (.complete t)
        (s.setTarget t { s.target t with outstanding := (s.target t).outstanding - 1 })
  | nextPass : Step s .nextPass { s with pass := s.pass + 1, target := fun _ => .start }

theorem Step.of_eq_some {s s' : State cfg} {a : Action cfg} (h : step s a = some s') :
    Step s a s' := by
  cases a with
  | advance t =>
    rw [step] at h
    split at h
    · next ht =>
      split at h
      · next hops =>
        cases h
        exact .finish t ht hops
      next hops =>
      split at h
      · cases h
        exact .locate t ht hops
      · cases h
    · next ht =>
      cases h
      rw [State.syncioBeforeIoOp]
      split
      · next hin =>
        split
        · next hall => exact .release t ht hin hall
        · next hsome => exact .block t ht hin hsome
      · next hno => exact .pass t ht hno
    · cases h
    · next ht =>
      cases h
      exact .issue t ht
    · next ht =>
      split at h
      · cases h
        exact .collected t ht
      · cases h
    · cases h
  | limit t =>
    rw [step] at h
    split at h
    · next ht =>
      cases h
      exact .limit t ht
    · cases h
  | complete t =>
    rw [step] at h
    split at h
    · next ht =>
      cases h
      exact .complete t ht
    · cases h
  | nextPass =>
    rw [step] at h
    split at h
    · cases h
      exact .nextPass
    · cases h

/-- A target waits in the syncio barrier while another one has issued all operations of the
pass and waits in the endpass barrier. -/
def Stranded (s : State cfg) : Prop :=
  ∃ t t', (s.target t).phase = .blocked ∧ (s.target t').phase = .endpass ∧
    (s.target t').issued = cfg.ops t'

/-- How often a target comes to the barrier in a pass. -/
def Config.rounds (cfg : Config) (ops : Nat) : Nat := (ops + cfg.syncio - 1) / cfg.syncio

end Xdd.Syncio
