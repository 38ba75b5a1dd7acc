import Xdd.Library.Account
import Xdd.Library.Transition

/-!
# Direct I/O with buffered operations in between

With `-dio` an operation that is not aligned to the page size is done through a descriptor
of its own: before the operation the worker turns `TO_DIO` off, opens the target again and
turns `TO_DIO` on, and after it the descriptor is closed. Both go through fields of the
target that all workers share. The target hands `td_file_desc` to each task that it sets
up.

Every access to a shared field is a step of its own. A descriptor that is opened is a new
one, and opening does not fail. The last operations of a pass are waited for before the
next pass begins. Targets that are opened anew for each pass, with `-reopen` or `-recreate`, are not
modelled.
-/

namespace Xdd.DirectIo

structure Op where
  byteOffset : Nat
  xferSize : Nat
deriving DecidableEq, Repr

/-- A target that was opened for direct I/O, with the operations of its passes. -/
structure Config where
  pagesize : Nat
  queueDepth : Nat
  queueDepth_pos : 0 < queueDepth
  passes : List (List Op)

instance (cfg : Config) : NeZero cfg.queueDepth := ⟨Nat.ne_of_gt cfg.queueDepth_pos⟩

/-- Direct I/O will do. -/
def Config.aligned (cfg : Config) (op : Op) : Bool :=
  op.xferSize % cfg.pagesize = 0 && op.byteOffset % cfg.pagesize = 0

/-- Where a worker is in `xdd_dio_before_io_op`, the I/O and `xdd_dio_after_io_op`. -/
inductive Stage where
  /-- about to test `TO_DIO` and the alignment -/
  | before
  | clearing
  /-- about to derive the open flags from `TO_DIO` -/
  | flagging
  | opening
  /-- about to take the new descriptor from the target -/
  | taking
  | restoring
  | io
  | after
  | closing
deriving DecidableEq, Repr

inductive Worker where
  | idle
  | task (op : Op) (fileDesc : Nat) (stage : Stage)
deriving DecidableEq, Repr

/-- An open descriptor, and whether it was opened with `O_DIRECT`. -/
structure Descriptor where
  fd : Nat
  direct : Bool
deriving DecidableEq, Repr

/-- `dio`, `openDirect` and `fileDesc` are `TO_DIO`, the `O_DIRECT` bit of `td_open_flags` and
`td_file_desc`. `calls` records each I/O call with the kind of its descriptor at that time. -/
structure State (cfg : Config) where
  dio : Bool
  openDirect : Bool
  fileDesc : Nat
  descriptors : List Descriptor
  nextFd : Nat
  worker : Fin cfg.queueDepth → Worker
  current : List Op
  later : List (List Op)
  calls : List (Op × Option Bool)

/-- The target has been opened. -/
def init (cfg : Config) : State cfg where
  dio := true
  openDirect := true
  fileDesc := 0
  descriptors := [⟨0, true⟩]
  nextFd := 1
  worker := fun _ => .idle
  current := []
  later := cfg.passes
  calls := []

inductive Action (cfg : Config) where
  | nextPass
  /-- `xdd_target_pass_task_setup` -/
  | assign (w : Fin cfg.queueDepth)
  /-- the next step of a worker -/
  | run (w : Fin cfg.queueDepth)

variable {cfg : Config}

namespace State

/-- How an open descriptor was opened. -/
def kind (s : State cfg) (fd : Nat) : Option Bool :=
  (s.descriptors.find? fun d => d.fd = fd).map (·.direct)

def setWorker (s : State cfg) (w : Fin cfg.queueDepth) (worker : Worker) : State cfg :=
  { s with worker := Function.update s.worker w worker }

def setStage (s : State cfg) (w : Fin cfg.queueDepth) (op : Op) (fd : Nat) (stage : Stage) :
    State cfg :=
  s.setWorker w (.task op fd stage)

/-- The next step of a worker with a task. -/
def advance (s : State cfg) (w : Fin cfg.queueDepth) (op : Op) (fd : Nat) : Stage → State cfg
  | .before =>
    if s.dio && !cfg.aligned op then s.setStage w op fd .clearing else s.setStage w op fd .io
  | .clearing => { s.setStage w op fd .flagging with dio := false }
  | .flagging => { s.setStage w op fd .opening with openDirect := s.dio }
  | .opening => { s.setStage w op fd .taking with
      descriptors := s.descriptors ++ [⟨s.nextFd, s.openDirect⟩]
      fileDesc := s.nextFd
      nextFd := s.nextFd + 1 }
  | .taking => s.setStage w op s.fileDesc .restoring
  | .restoring => { s.setStage w op fd .io with dio := true }
  | .io => { s.setStage w op fd .after with calls := s.calls ++ [(op, s.kind fd)] }
  | .after =>
    if s.dio && !cfg.aligned op then s.setStage w op fd .closing else s.setWorker w .idle
  -- the shallow open that follows leaves the descriptor of the target as it is
  | .closing => { s.setWorker w .idle with
      descriptors := s.descriptors.filter fun d => d.fd ≠ fd }

end State

def step (s : State cfg) : Action cfg → Option (State cfg)
  | .nextPass =>
    match s.current, s.later with
    | [], ops :: later =>
      if ∀ w, s.worker w = .idle then some { s with current := ops, later := later } else none
    | _, _ => none
  | .assign w =>
    match s.worker w, s.current with
    | .idle, op :: rest =>
      some { s.setStage w op s.fileDesc .before with current := rest }
    | _, _ => none
  | .run w =>
    match s.worker w with
    | .task op fd stage => some (s.advance w op fd stage)
    | .idle => none

/-- The states that a run can come to. -/
def Reachable (s : State cfg) : Prop := Transition.Reach step Transition.anyStep (init cfg) s

/-- The steps, each with what it needs. -/
inductive Step (s : State cfg) : State cfg → Prop where
  | nextPass (ops : List Op) (later : List (List Op)) (hcurrent : s.current = [])
      (hlater : s.later = ops :: later) (hidle : ∀ w, s.worker w = .idle) :
      Step s { s with current := ops, later := later }
  | assign (w : Fin cfg.queueDepth) (op : Op) (rest : List Op) (hw : s.worker w = .idle)
      (hcurrent : s.current = op :: rest) :
      Step s { s.setStage w op s.fileDesc .before with current := rest }
  | run (w : Fin cfg.queueDepth) (op : Op) (fd : Nat) (stage : Stage)
      (hw : s.worker w = .task op fd stage) : Step s (s.advance w op fd stage)

theorem Step.of_eq_some {s s' : State cfg} {a : Action cfg} (h : step s a = some s') :
    Step s s' := by
  cases a with
  | nextPass =>
    rw [step] at h
    split at h
    · next ops later hcurrent hlater =>
      split at h
      · next hidle =>
        cases h
        exact .nextPass ops later hcurrent hlater hidle
      · cases h
    · cases h
  | assign w =>
    rw [step] at h
    split at h
    · next op rest hw hcurrent =>
      cases h
      exact .assign w op rest hw hcurrent
    · cases h
  | run w =>
    rw [step] at h
    split at h
    · next op fd stage hw =>
      cases h
      exact .run w op fd stage hw
    · cases h

/-- Every call was made on an open descriptor of the right kind, and descriptors do not pile
up. -/
structure Sound (s : State cfg) : Prop where
  calls : ∀ call ∈ s.calls, call.2 = some (cfg.aligned call.1)
  bounded : s.descriptors.length ≤ cfg.queueDepth + 1

end Xdd.DirectIo
