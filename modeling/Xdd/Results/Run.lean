import Xdd.Library.Transition

/-!
# A run of several targets

Target threads and the results manager meet in four barriers: all targets start a pass
together, the manager processes its results when all have ended it, and the targets go
on when it has displayed them. A target that leaves its pass loop sets `run_complete`
and goes through the first three barriers once more, so that the manager can process
the run, and then waits for the cleanup. `main` chooses its return value when the
manager is done.

A step is one test of a flag, one mutex section or one I/O of one thread. The flags
`abort` and `canceled` and the end of the run time can be raised at any moment, and the
result of every I/O is chosen by the environment.
-/

namespace Xdd.Results

inductive Barrier where
  | startpass
  | endpass
  | display
  | waitforcleanup
deriving DecidableEq, Repr

instance : Fintype Barrier where
  elems := {.startpass, .endpass, .display, .waitforcleanup}
  complete b := by cases b <;> decide

/-- Where a target thread is in `xdd_target_thread` and `xdd_target_pass`. -/
inductive TargetPc where
  | startpass
  | checkAbort
  | checkComplete
  | pass
  | endpass
  | display
  /-- back from the pass: about to test `canceled`, `abort` and `td_abort` -/
  | testAbort
  | testRunTime
  | testPasses
  /-- left the pass loop: in the same barriers for the last time -/
  | lastStartpass
  | lastEndpass
  | lastDisplay
  | waitforcleanup
  | returned
deriving DecidableEq, Repr

/-- Where the results manager is in `xdd_results_manager`. -/
inductive ManagerPc where
  | startpass
  | endpass
  | checkAbort
  | checkComplete
  | display
  /-- displayed the run results because a target has left its loop -/
  | runDisplay
  /-- displayed the run results because of an abort -/
  | abortDisplay
  | waitforcleanup
  /-- in `main_results_final_barrier`, where `main` waits -/
  | final
  /-- returned early because of an abort -/
  | returned
deriving DecidableEq, Repr

/-- The barrier that a thread is in. -/
def TargetPc.barrier : TargetPc → Option Barrier
  | .startpass | .lastStartpass => some .startpass
  | .endpass | .lastEndpass => some .endpass
  | .display | .lastDisplay => some .display
  | .waitforcleanup => some .waitforcleanup
  | _ => none

def ManagerPc.barrier : ManagerPc → Option Barrier
  | .startpass => some .startpass
  | .endpass => some .endpass
  | .display | .runDisplay | .abortDisplay => some .display
  | .waitforcleanup => some .waitforcleanup
  | _ => none

/-- Where a thread goes when its barrier opens. -/
def TargetPc.released : TargetPc → TargetPc
  | .startpass => .checkAbort
  | .endpass => .display
  | .display => .testAbort
  | .lastStartpass => .lastEndpass
  | .lastEndpass => .lastDisplay
  | .lastDisplay => .waitforcleanup
  | .waitforcleanup => .returned
  | pc => pc

def ManagerPc.released : ManagerPc → ManagerPc
  | .startpass => .endpass
  | .endpass => .checkAbort
  | .display => .startpass
  | .runDisplay => .waitforcleanup
  | .abortDisplay => .returned
  | .waitforcleanup => .final
  | pc => pc

/-- `TASK_REQ_IO` with its transfer size, or `TASK_REQ_EOF`. -/
inductive Task where
  | io (xferSize : Nat)
  | eof
deriving DecidableEq, Repr

inductive Worker where
  | idle
  | assigned (task : Task)
  | inIo (xferSize : Nat)
deriving DecidableEq, Repr

/-- The Target Data of a target and its workers. The last two fields only record how many
passes it has ended and, for each I/O that has returned, its transfer size and status. -/
structure Target (Q : Nat) where
  pc : TargetPc
  passNumber : Nat
  abort : Bool
  currentIoStatus : Int
  currentErrorCount : Nat
  worker : Fin Q → Worker
  completed : Nat
  ios : List (Nat × Int)

structure Config where
  targets : Nat
  queueDepth : Fin targets → Nat
  passes : Nat
  /-- a run time was given (`run_time_ticks > 0`) -/
  runTime : Bool
  endToEnd : Fin targets → Bool
  stopOnError : Bool

/-- How the process ends. A canceled end-to-end target calls `exit(2)`. -/
inductive Outcome where
  | success
  | ioError
  | canceled
  | exit
deriving DecidableEq, Repr

/-- `processed` records the pass numbers of the targets at each call of
`xdd_process_pass_results`. -/
structure State (cfg : Config) where
  target : (t : Fin cfg.targets) → Target (cfg.queueDepth t)
  manager : ManagerPc
  passes : Nat
  abort : Bool
  canceled : Bool
  runTimeExpired : Bool
  runComplete : Bool
  targetErrno : Fin cfg.targets → Bool
  processed : List (Fin cfg.targets → Nat)
  outcome : Option Outcome

def init (cfg : Config) : State cfg where
  target := fun _ =>
    { pc := .startpass, passNumber := 1, abort := false, currentIoStatus := 0,
      currentErrorCount := 0, worker := fun _ => .idle, completed := 0, ios := [] }
  manager := .startpass
  passes := cfg.passes
  abort := false
  canceled := false
  runTimeExpired := false
  runComplete := false
  targetErrno := fun _ => false
  processed := []
  outcome := none

variable {cfg : Config}

def State.setTarget (s : State cfg) (t : Fin cfg.targets) (target : Target (cfg.queueDepth t)) :
    State cfg :=
  { s with target := Function.update s.target t target }

/-! ## Workers -/

inductive WorkerAction (Q : Nat) where
  | assign (w : Fin Q) (task : Task)
  /-- the worker of an I/O task tests the flags and starts its I/O -/
  | startIo (w : Fin Q)
  /-- the I/O returns; `xdd_worker_thread_update_local_counters` and the target counters -/
  | finishIo (w : Fin Q) (status : Int)
  /-- `xdd_e2e_eof_source_side` returns -/
  | finishEof (w : Fin Q) (status : Int)

namespace Target

variable {Q : Nat}

/-- Whether the step is an I/O whose status is not its transfer size. -/
def ioFails (target : Target Q) : WorkerAction Q → Bool
  | .finishIo w status =>
    match target.worker w with
    | .inIo xferSize => status != xferSize
    | _ => false
  | _ => false

/-- A step of a worker of this target; `stop` is a cancel or an abort of the run. -/
def work (stopOnError stop : Bool) (target : Target Q) : WorkerAction Q → Option (Target Q)
  | .assign w task =>
    if target.pc = .pass ∧ target.worker w = .idle then
      some { target with worker := Function.update target.worker w (.assigned task) }
    else
      none
  | .startIo w =>
    match target.worker w with
    | .assigned (.io xferSize) =>
      if stop || target.abort then
        some { target with worker := Function.update target.worker w .idle }
      else
        some { target with worker := Function.update target.worker w (.inIo xferSize) }
    | _ => none
  | .finishIo w status =>
    match target.worker w with
    | .inIo xferSize =>
      if status = xferSize then
        some { target with
          worker := Function.update target.worker w .idle
          ios := target.ios ++ [(xferSize, status)] }
      else
        some { target with
          worker := Function.update target.worker w .idle
          abort := target.abort || stopOnError
          currentErrorCount := target.currentErrorCount + 1
          ios := target.ios ++ [(xferSize, status)] }
    | _ => none
  | .finishEof w status =>
    match target.worker w with
    | .assigned .eof =>
      some { target with
        worker := Function.update target.worker w .idle
        currentIoStatus := if status = 0 then target.currentIoStatus else status }
    | _ => none

/-- `xdd_init_target_data_before_pass` and the start of the pass. -/
def beforePass (target : Target Q) : Target Q :=
  { target with pc := .pass, abort := false, currentIoStatus := 0, currentErrorCount := 0 }

end Target

/-! ## Target threads -/

/-- A target breaks out of its pass loop. -/
def leaveLoop (s : State cfg) (t : Fin cfg.targets) : State cfg :=
  if cfg.endToEnd t && s.canceled then
    { s with outcome := some .exit }
  else
    { s.setTarget t { s.target t with pc := .lastStartpass } with runComplete := true }

/-- The next step of a target after its pass breaks out of the loop. -/
def Leaves (s : State cfg) (t : Fin cfg.targets) : Prop :=
  match (s.target t).pc with
  | .testAbort => (s.canceled || s.abort || (s.target t).abort) = true
  | .testRunTime => cfg.runTime = true ∧ s.runTimeExpired = true
  | .testPasses => s.passes ≤ (s.target t).passNumber
  | _ => False

/-- The next step of a target after its pass goes on to another pass. -/
def GoesOn (s : State cfg) (t : Fin cfg.targets) : Prop :=
  (s.target t).pc = .testPasses ∧ (s.target t).passNumber < s.passes

instance (s : State cfg) (t : Fin cfg.targets) : Decidable (Leaves s t) := by
  unfold Leaves
  split <;> infer_instance

instance (s : State cfg) (t : Fin cfg.targets) : Decidable (GoesOn s t) :=
  inferInstanceAs (Decidable (_ ∧ _))

/-- The next step of target thread `t` when it is not in a barrier. -/
def targetStep (s : State cfg) (t : Fin cfg.targets) : Option (State cfg) :=
  let target := s.target t
  let goto (pc : TargetPc) : State cfg := s.setTarget t { target with pc := pc }
  match target.pc with
  | .checkAbort => if s.abort then some (goto .testAbort) else some (goto .checkComplete)
  | .checkComplete =>
    if s.runComplete then some (goto .testAbort) else some (s.setTarget t target.beforePass)
  | .pass =>
    if cfg.endToEnd t && s.canceled then
      some (goto .testAbort)
    else if s.canceled then
      -- the pass loop returns without waiting for its workers
      some (s.setTarget t { target with pc := .endpass, completed := target.completed + 1 })
    else if ∀ w, target.worker w = .idle then
      some { s.setTarget t { target with pc := .endpass, completed := target.completed + 1 } with
        targetErrno := if target.currentIoStatus = 0 then s.targetErrno
          else Function.update s.targetErrno t true }
    else
      none
  | .testAbort =>
    if s.canceled || s.abort || target.abort then some (leaveLoop s t) else some (goto .testRunTime)
  | .testRunTime =>
    if cfg.runTime then
      if s.runTimeExpired then
        some (leaveLoop s t)
      else
        some { goto .testPasses with
          passes := if target.passNumber = s.passes then s.passes + 1 else s.passes }
    else
      some (goto .testPasses)
  | .testPasses =>
    if s.passes ≤ target.passNumber then
      some (leaveLoop s t)
    else
      some (s.setTarget t { target with pc := .startpass, passNumber := target.passNumber + 1 })
  | _ => none

/-- The steps of a target thread, one constructor for each branch of `targetStep`; all
that break out of the loop are one. -/
inductive TargetStep (s : State cfg) (t : Fin cfg.targets) : State cfg → Prop where
  | abortSeen : (s.target t).pc = .checkAbort → s.abort = true →
      TargetStep s t (s.setTarget t { s.target t with pc := .testAbort })
  | abortClear : (s.target t).pc = .checkAbort → s.abort = false →
      TargetStep s t (s.setTarget t { s.target t with pc := .checkComplete })
  | completeSeen : (s.target t).pc = .checkComplete → s.runComplete = true →
      TargetStep s t (s.setTarget t { s.target t with pc := .testAbort })
  | begin : (s.target t).pc = .checkComplete → s.runComplete = false →
      TargetStep s t (s.setTarget t (s.target t).beforePass)
  | quit : (s.target t).pc = .pass → cfg.endToEnd t = true → s.canceled = true →
      TargetStep s t (s.setTarget t { s.target t with pc := .testAbort })
  | cutShort : (s.target t).pc = .pass → s.canceled = true →
      TargetStep s t (s.setTarget t { s.target t with
        pc := .endpass
        completed := (s.target t).completed + 1 })
  | finish (errno) : (s.target t).pc = .pass → (∀ w, (s.target t).worker w = .idle) →
      TargetStep s t { s.setTarget t { s.target t with
          pc := .endpass
          completed := (s.target t).completed + 1 } with
        targetErrno := errno }
  | leave : Leaves s t → TargetStep s t (leaveLoop s t)
  | noAbort : (s.target t).pc = .testAbort → s.canceled = false → s.abort = false →
      (s.target t).abort = false →
      TargetStep s t (s.setTarget t { s.target t with pc := .testRunTime })
  | runTime (passes) : (s.target t).pc = .testRunTime →
      TargetStep s t { s.setTarget t { s.target t with pc := .testPasses } with passes := passes }
  | goOn : GoesOn s t →
      TargetStep s t (s.setTarget t { s.target t with
        pc := .startpass
        passNumber := (s.target t).passNumber + 1 })

theorem TargetStep.of_eq_some {s s' : State cfg} {t : Fin cfg.targets}
    (h : targetStep s t = some s') : TargetStep s t s' := by
  cases hp : (s.target t).pc <;> simp only [targetStep, hp, reduceCtorEq] at h
  case checkAbort =>
    split at h <;> cases h
    · exact .abortSeen hp ‹_›
    · exact .abortClear hp (Bool.eq_false_iff.mpr ‹_›)
  case checkComplete =>
    split at h <;> cases h
    · exact .completeSeen hp ‹_›
    · exact .begin hp (Bool.eq_false_iff.mpr ‹_›)
  case pass =>
    split at h
    · cases h
      rename_i hquit
      exact .quit hp (Bool.and_eq_true_iff.mp hquit).1 (Bool.and_eq_true_iff.mp hquit).2
    · split at h
      · cases h
        exact .cutShort hp ‹_›
      · split at h <;> cases h
        exact .finish _ hp ‹_›
  case testAbort =>
    split at h <;> cases h
    · rename_i hleave
      apply TargetStep.leave
      simp only [Leaves, hp]
      exact hleave
    · rename_i hno
      obtain ⟨⟨hcanceled, habort⟩, htarget⟩ : (s.canceled = false ∧ s.abort = false) ∧
          (s.target t).abort = false := by simpa using hno
      exact .noAbort hp hcanceled habort htarget
  case testRunTime =>
    split at h
    · split at h <;> cases h
      · exact .leave (by simp [Leaves, *])
      · exact .runTime _ hp
    · cases h
      exact .runTime s.passes hp
  case testPasses =>
    split at h <;> cases h
    · exact .leave (by simpa [Leaves, hp] using ‹_›)
    · exact .goOn ⟨hp, Nat.lt_of_not_le ‹_›⟩

/-! ## The results manager and `main` -/

/-- The number of threads that have entered a barrier. -/
def entered (s : State cfg) (b : Barrier) : Nat :=
  (Finset.univ.filter fun t => (s.target t).pc.barrier = some b).card +
    if s.manager.barrier = some b then 1 else 0

/-- All threads leave a barrier. -/
def release (s : State cfg) (b : Barrier) : State cfg :=
  { s with
    target := fun t =>
      if (s.target t).pc.barrier = some b then
        { s.target t with pc := (s.target t).pc.released }
      else
        s.target t
    manager := if s.manager.barrier = some b then s.manager.released else s.manager }

/-- `xdd_process_run_results`: an abort of a target becomes an abort of the run. -/
def processRunResults (s : State cfg) : State cfg :=
  { s with abort := s.abort || decide (∃ t, (s.target t).abort = true) }

/-- `xdd_process_pass_results` -/
def processPassResults (s : State cfg) : State cfg :=
  { s with processed := s.processed ++ [fun t => (s.target t).passNumber] }

def managerStep (s : State cfg) : Option (State cfg) :=
  match s.manager with
  | .checkAbort =>
    if s.abort then
      some { processRunResults s with manager := .abortDisplay }
    else
      some { s with manager := .checkComplete }
  | .checkComplete =>
    if s.runComplete then
      some { processRunResults s with manager := .runDisplay }
    else
      some { processPassResults s with manager := .display }
  | _ => none

/-- The return value of `main`. -/
def mainValue (s : State cfg) : Outcome :=
  if s.canceled then .canceled
  else if s.abort then .ioError
  else if ∃ t, s.targetErrno t = true then .ioError
  else .success

inductive Action (cfg : Config) where
  | worker (t : Fin cfg.targets) (a : WorkerAction (cfg.queueDepth t))
  | target (t : Fin cfg.targets)
  | release (b : Barrier)
  | manager
  | main
  | raiseAbort
  | cancel
  | runTimeExpires

/-- One step of a thread; none is left when the process has ended. -/
def step (cfg : Config) (s : State cfg) (a : Action cfg) : Option (State cfg) :=
  if s.outcome.isSome then
    none
  else
    match a with
    | .worker t a =>
      ((s.target t).work cfg.stopOnError (s.canceled || s.abort) a).map (s.setTarget t)
    | .target t => targetStep s t
    | .release b => if entered s b = cfg.targets + 1 then some (release s b) else none
    | .manager => managerStep s
    | .main => if s.manager = .final then some { s with outcome := some (mainValue s) } else none
    | .raiseAbort => some { s with abort := true }
    | .cancel => some { s with canceled := true }
    | .runTimeExpires => some { s with runTimeExpired := true }

/-- The steps of the system. -/
inductive Step (cfg : Config) (s : State cfg) : Action cfg → State cfg → Prop where
  | worker {t a target} :
      (s.target t).work cfg.stopOnError (s.canceled || s.abort) a = some target →
      Step cfg s (.worker t a) (s.setTarget t target)
  | target {t s'} : TargetStep s t s' → Step cfg s (.target t) s'
  | release {b} : entered s b = cfg.targets + 1 → Step cfg s (.release b) (release s b)
  | abortDisplay : s.manager = .checkAbort → s.abort = true →
      Step cfg s .manager { processRunResults s with manager := .abortDisplay }
  | abortClear : s.manager = .checkAbort → s.abort = false →
      Step cfg s .manager { s with manager := .checkComplete }
  | runDisplay : s.manager = .checkComplete → s.runComplete = true →
      Step cfg s .manager { processRunResults s with manager := .runDisplay }
  | display : s.manager = .checkComplete → s.runComplete = false →
      Step cfg s .manager { processPassResults s with manager := .display }
  | main : s.manager = .final → Step cfg s .main { s with outcome := some (mainValue s) }
  | raiseAbort : Step cfg s .raiseAbort { s with abort := true }
  | cancel : Step cfg s .cancel { s with canceled := true }
  | runTimeExpires : Step cfg s .runTimeExpires { s with runTimeExpired := true }

theorem Step.of_eq_some {s s' : State cfg} {a : Action cfg} (h : step cfg s a = some s') :
    s.outcome = none ∧ Step cfg s a s' := by
  unfold step at h
  split at h
  · cases h
  · rename_i hrunning
    refine ⟨by simpa using hrunning, ?_⟩
    cases a with
    | worker t a =>
        obtain ⟨target, htarget, rfl⟩ := Option.map_eq_some_iff.mp h
        exact .worker htarget
    | target t => exact .target (.of_eq_some h)
    | release b =>
        dsimp only at h
        split at h <;> cases h
        exact .release ‹_›
    | manager =>
        cases hp : s.manager <;> simp only [managerStep, hp, reduceCtorEq] at h
        · split at h <;> cases h
          · exact .abortDisplay hp ‹_›
          · exact .abortClear hp (Bool.eq_false_iff.mpr ‹_›)
        · split at h <;> cases h
          · exact .runDisplay hp ‹_›
          · exact .display hp (Bool.eq_false_iff.mpr ‹_›)
    | main =>
        dsimp only at h
        split at h <;> cases h
        exact .main ‹_›
    | raiseAbort =>
        cases h
        exact .raiseAbort
    | cancel =>
        cases h
        exact .cancel
    | runTimeExpires =>
        cases h
        exact .runTimeExpires

/-- A full barrier holds every thread. -/
theorem entered_eq_iff (s : State cfg) (b : Barrier) :
    entered s b = cfg.targets + 1 ↔
      (∀ t, (s.target t).pc.barrier = some b) ∧ s.manager.barrier = some b := by
  have hle : (Finset.univ.filter fun t => (s.target t).pc.barrier = some b).card ≤ cfg.targets := by
    simpa using Finset.card_le_univ (Finset.univ.filter fun t => (s.target t).pc.barrier = some b)
  have hall : (Finset.univ.filter fun t => (s.target t).pc.barrier = some b).card = cfg.targets ↔
      ∀ t, (s.target t).pc.barrier = some b := by
    have hcard := Finset.card_filter_eq_iff (s := Finset.univ)
      (p := fun t => (s.target t).pc.barrier = some b)
    rw [Finset.card_univ, Fintype.card_fin] at hcard
    simpa using hcard
  unfold entered
  split
  · simp only [*, and_true, Nat.add_right_cancel_iff]
  · simp only [*, and_false, iff_false, Nat.add_zero]
    omega

theorem State.forall_setTarget {s : State cfg} {t : Fin cfg.targets}
    {target : Target (cfg.queueDepth t)}
    (P : (u : Fin cfg.targets) → Target (cfg.queueDepth u) → Prop) (ht : P t target)
    (h : ∀ u ≠ t, P u (s.target u)) : ∀ u, P u ((s.setTarget t target).target u) :=
  (Function.forall_update_iff s.target P).mpr ⟨ht, h⟩

/-- What a worker leaves alone. -/
theorem Target.work_eq {Q : Nat} {target target' : Target Q} {stopOnError stop : Bool}
    {a : WorkerAction Q} (h : target.work stopOnError stop a = some target') :
    target'.pc = target.pc ∧ target'.passNumber = target.passNumber ∧
      target'.completed = target.completed := by
  cases a <;> simp only [Target.work] at h
  all_goals split at h
  all_goals first | cases h | skip
  all_goals first | exact ⟨rfl, rfl, rfl⟩ | skip
  all_goals split at h <;> cases h
  all_goals exact ⟨rfl, rfl, rfl⟩

end Xdd.Results
