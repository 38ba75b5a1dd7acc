import Xdd.Library.Account
import Xdd.Library.Transition

/-!
# Time stamping the tasks of a target

A task gets its entry of the time stamp table when the target sets it up, in the loop of
the pass or when the tasks for the end of an end-to-end copy are given out. The same
bookkeeping stands at all four places. The table is made once, for the passes that were asked for;
with a run time the target adds a pass whenever it has done the last one.

Workers hold their entry until the task is done. A time or run limit may end a loop early;
the loop of an end-to-end source then keeps the worker that it had located. A worker of a
destination that has received the end of file is not given another task in any later pass.
-/

namespace Xdd.TimeStamp

/-- `xint_timestamp_t`: the options that the bookkeeping looks at, `ts_current_entry` and
`ts_size`. -/
structure TsTable where
  on : Bool
  triggered : Bool
  oneshot : Bool
  wrap : Bool
  currentEntry : Nat
  size : Nat
deriving DecidableEq, Repr

/-- Assign a time stamp entry if time stamping is on. -/
def TsTable.stamp (ts : TsTable) : Option Nat × TsTable :=
  if ts.on || ts.triggered then
    let current := ts.currentEntry + 1
    if ts.oneshot then
      -- at the end of the buffer time stamping is turned off
      (some ts.currentEntry, { ts with
        currentEntry := current
        on := if current = ts.size then false else ts.on })
    else if ts.wrap then (some ts.currentEntry, { ts with currentEntry := 0 })
    else (some ts.currentEntry, { ts with currentEntry := current })
  else (none, ts)

/-- The loops of a pass. -/
inductive Loop where
  | normal
  | lockstep
  | source
  | destination
deriving DecidableEq, Repr

/-- A target with time stamping on. `passes` are those that were asked for, `blocks` the blocks that
a destination receives before the ends of file. -/
structure Config where
  loop : Loop
  queueDepth : Nat
  queueDepth_pos : 0 < queueDepth
  passes : Nat
  passes_pos : 0 < passes
  /-- `-runtime` is given -/
  runTime : Bool
  ops : Nat
  blocks : Nat
  oneshot : Bool
  wrap : Bool
  triggered : Bool

instance (cfg : Config) : NeZero cfg.queueDepth := ⟨Nat.ne_of_gt cfg.queueDepth_pos⟩

/-- `xdd_ts_setup`: the size of the table. -/
def Config.tsSize (cfg : Config) : Nat := cfg.passes * cfg.ops + cfg.queueDepth

def tsSetup (cfg : Config) : TsTable where
  on := true
  triggered := cfg.triggered
  oneshot := cfg.oneshot
  wrap := cfg.wrap
  currentEntry := 0
  size := cfg.tsSize

inductive Worker where
  | idle
  /-- works on a task, with `wd_ts_entry` if the task was stamped -/
  | busy (entry : Option Nat)
  /-- has received the end of file; nothing clears `WTSYNC_EOF_RECEIVED` -/
  | eof
  /-- located by a loop that then met a limit, and never given back -/
  | lost
deriving DecidableEq, Repr

/-- `issued` and `eofs` are the tasks given out in the pass, in its loop and for the end of
file; `received` are the blocks that a destination has got in the run. `stamped` and `tasks` record
the entries in their order and the number of all tasks. -/
structure State (cfg : Config) where
  pass : Nat
  issued : Nat
  eofs : Nat
  received : Nat
  left : Bool
  worker : Fin cfg.queueDepth → Worker
  table : TsTable
  stamped : List Nat
  tasks : Nat

def init (cfg : Config) : State cfg where
  pass := 0
  issued := 0
  eofs := 0
  received := 0
  left := false
  worker := fun _ => .idle
  table := tsSetup cfg
  stamped := []
  tasks := 0

inductive Action (cfg : Config) where
  /-- the loop of the pass gives a worker its next task -/
  | assign (w : Fin cfg.queueDepth)
  /-- the loop meets a limit after it has located a worker -/
  | limit (w : Fin cfg.queueDepth)
  /-- the task for the end of file -/
  | eof (w : Fin cfg.queueDepth)
  | complete (w : Fin cfg.queueDepth)
  /-- a worker of a destination receives a block and writes it -/
  | receive (w : Fin cfg.queueDepth)
  | receiveEof (w : Fin cfg.queueDepth)
  /-- all tasks of the pass are done -/
  | nextPass

variable {cfg : Config}

/-- The target goes on to this pass: with a run time there is always another one. -/
def Config.MayPass (cfg : Config) (pass : Nat) : Prop := pass < cfg.passes ∨ cfg.runTime = true

instance (cfg : Config) (pass : Nat) : Decidable (cfg.MayPass pass) :=
  inferInstanceAs (Decidable (_ ∨ _))

namespace State

def setWorker (s : State cfg) (w : Fin cfg.queueDepth) (worker : Worker) : State cfg :=
  { s with worker := Function.update s.worker w worker }

/-- Set up a task for a worker. -/
def give (s : State cfg) (w : Fin cfg.queueDepth) : State cfg :=
  { s with
    worker := Function.update s.worker w (.busy s.table.stamp.1)
    table := s.table.stamp.2
    stamped := s.stamped ++ s.table.stamp.1.toList
    tasks := s.tasks + 1 }

/-- The loop goes on: a destination has no other end than the ends of file. -/
def MayIssue (s : State cfg) : Prop :=
  cfg.MayPass s.pass ∧ s.left = false ∧ (cfg.loop = .destination ∨ s.issued < cfg.ops)

/-- The loop of an end-to-end source is over. -/
def AtEof (s : State cfg) : Prop :=
  cfg.MayPass s.pass ∧ cfg.loop = .source ∧ (s.left = true ∨ s.issued = cfg.ops)

/-- No more tasks are given out in this pass, and none is being worked on. A destination whose loop
was left early has been canceled or aborted and has no further pass. -/
def PassOver (s : State cfg) : Prop :=
  cfg.MayPass s.pass ∧
  (match cfg.loop with
    | .normal | .lockstep => s.left = true ∨ s.issued = cfg.ops
    | .source => s.eofs = cfg.queueDepth
    | .destination => ∀ w, s.worker w = .eof) ∧
  ∀ w, s.worker w = .idle ∨ s.worker w = .eof

instance (s : State cfg) : Decidable s.MayIssue :=
  inferInstanceAs (Decidable (_ ∧ _ ∧ (_ ∨ _)))

instance (s : State cfg) : Decidable s.AtEof :=
  inferInstanceAs (Decidable (_ ∧ _ ∧ (_ ∨ _)))

instance (s : State cfg) : Decidable s.PassOver :=
  have : Decidable (match cfg.loop with
      | .normal | .lockstep => s.left = true ∨ s.issued = cfg.ops
      | .source => s.eofs = cfg.queueDepth
      | .destination => ∀ w, s.worker w = .eof) :=
    match cfg.loop with
    | .normal => inferInstanceAs (Decidable (_ ∨ _))
    | .lockstep => inferInstanceAs (Decidable (_ ∨ _))
    | .source => inferInstanceAs (Decidable (_ = _))
    | .destination => inferInstanceAs (Decidable (∀ _, _))
  inferInstanceAs (Decidable (_ ∧ _ ∧ _))

end State

def step (s : State cfg) : Action cfg → Option (State cfg)
  | .assign w =>
    if s.MayIssue ∧ s.worker w = .idle then some { s.give w with issued := s.issued + 1 }
    else none
  | .limit w =>
    if s.MayIssue ∧ s.worker w = .idle then
      if cfg.loop = .source then some { s.setWorker w .lost with left := true }
      else some { s with left := true }
    else none
  | .eof w =>
    if s.AtEof ∧ w.val = s.eofs ∧ s.worker w = .idle then
      some { s.give w with eofs := s.eofs + 1 }
    else none
  | .complete w =>
    match s.worker w with
    | .busy _ => if cfg.loop ≠ .destination then some (s.setWorker w .idle) else none
    | _ => none
  | .receive w =>
    match s.worker w with
    | .busy _ =>
      if cfg.loop = .destination ∧ s.received < cfg.blocks then
        some { s.setWorker w .idle with received := s.received + 1 }
      else none
    | _ => none
  | .receiveEof w =>
    match s.worker w with
    | .busy _ => if cfg.loop = .destination then some (s.setWorker w .eof) else none
    | _ => none
  | .nextPass =>
    if s.PassOver then
      some { s with
        pass := s.pass + 1
        issued := 0
        eofs := 0
        left := false }
    else none

/-- The states that a run can come to. -/
def Reachable (s : State cfg) : Prop := Transition.Reach step Transition.anyStep (init cfg) s

/-- The steps, each with what it needs. -/
inductive Step (s : State cfg) : State cfg → Prop where
  | assign (w : Fin cfg.queueDepth) (hmay : s.MayIssue) (hw : s.worker w = .idle) :
      Step s { s.give w with issued := s.issued + 1 }
  | lose (w : Fin cfg.queueDepth) (hmay : s.MayIssue) (hw : s.worker w = .idle)
      (hloop : cfg.loop = .source) : Step s { s.setWorker w .lost with left := true }
  | leave : Step s { s with left := true }
  | eof (w : Fin cfg.queueDepth) (hat : s.AtEof) (hnext : w.val = s.eofs)
      (hw : s.worker w = .idle) : Step s { s.give w with eofs := s.eofs + 1 }
  | complete (w : Fin cfg.queueDepth) (entry : Option Nat) (hw : s.worker w = .busy entry)
      (hloop : cfg.loop ≠ .destination) : Step s (s.setWorker w .idle)
  | receive (w : Fin cfg.queueDepth) (entry : Option Nat) (hw : s.worker w = .busy entry)
      (hloop : cfg.loop = .destination) (hblocks : s.received < cfg.blocks) :
      Step s { s.setWorker w .idle with received := s.received + 1 }
  | receiveEof (w : Fin cfg.queueDepth) (entry : Option Nat) (hw : s.worker w = .busy entry)
      (hloop : cfg.loop = .destination) : Step s (s.setWorker w .eof)
  | nextPass (hover : s.PassOver) :
      Step s { s with
        pass := s.pass + 1
        issued := 0
        eofs := 0
        left := false }

theorem Step.of_eq_some {s s' : State cfg} {a : Action cfg} (h : step s a = some s') :
    Step s s' := by
  cases a with
  | assign w =>
    rw [step] at h
    split at h
    · next hg =>
      cases h
      exact .assign w hg.1 hg.2
    · cases h
  | limit w =>
    rw [step] at h
    split at h
    · next hg =>
      split at h
      · next hloop =>
        cases h
        exact .lose w hg.1 hg.2 hloop
      · cases h
        exact .leave
    · cases h
  | eof w =>
    rw [step] at h
    split at h
    · next hg =>
      cases h
      exact .eof w hg.1 hg.2.1 hg.2.2
    · cases h
  | complete w =>
    rw [step] at h
    split at h
    · next entry hw =>
      split at h
      · next hloop =>
        cases h
        exact .complete w entry hw hloop
      · cases h
    · cases h
  | receive w =>
    rw [step] at h
    split at h
    · next entry hw =>
      split at h
      · next hg =>
        cases h
        exact .receive w entry hw hg.1 hg.2
      · cases h
    · cases h
  | receiveEof w =>
    rw [step] at h
    split at h
    · next entry hw =>
      split at h
      · next hloop =>
        cases h
        exact .receiveEof w entry hw hloop
      · cases h
    · cases h
  | nextPass =>
    rw [step] at h
    split at h
    · next hover =>
      cases h
      exact .nextPass hover
    · cases h

/-! ## What should hold -/

/-- The entry of the `k`-th stamped task. -/
def Config.expected (cfg : Config) (k : Nat) : Nat := if cfg.wrap then k % cfg.tsSize else k

/-- Entries are assigned in order and in bounds, a one-shot table is not stamped again when
it is full, and tasks in flight have entries of their own. -/
structure InOrder (s : State cfg) : Prop where
  entry : ∀ k (h : k < s.stamped.length), s.stamped[k] = cfg.expected k
  full : cfg.oneshot = true → s.stamped.length ≤ cfg.tsSize
  bound : ∀ e ∈ s.stamped, e < cfg.tsSize
  apart : ∀ w w' e, s.worker w = .busy (some e) → s.worker w' = .busy (some e) → w = w'

/-- The tasks of a pass that is not cut short. The workers of a destination are done after the first
one. -/
def Config.passTasks (cfg : Config) (pass : Nat) : Nat :=
  match cfg.loop with
  | .normal | .lockstep => cfg.ops
  | .source => cfg.ops + cfg.queueDepth
  | .destination => if pass = 0 then cfg.blocks + cfg.queueDepth else 0

/-- The tasks of a run of so many passes. -/
def Config.runTasks (cfg : Config) (passes : Nat) : Nat :=
  ∑ pass ∈ Finset.range passes, cfg.passTasks pass

end Xdd.TimeStamp
