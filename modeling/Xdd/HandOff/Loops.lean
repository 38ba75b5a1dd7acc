import Xdd.Library.Transition

/-!
# The pass loops and their workers

A target thread gives tasks to its workers through three devices: the `WTSYNC_BUSY` flag
of a worker, the count of available workers and a two-party barrier for each worker. The
four pass loops use them differently. The normal loop, the loop of an end-to-end source
and `xdd_lockstep` ask for any available worker, make the tests before an I/O and release
it with a task; the loop of an end-to-end destination goes on until all workers have
received an end of file. The source then gives each worker an end-of-file task, and all
of them wait for every worker in the end. After the last pass the workers are stopped.

A step is one mutex section, one write of a task, the opening of a barrier or the start
or end of a task. When a time limit, an abort or a cancel takes effect is chosen by the
environment, and so is what the other targets of a lockstep ring do.
-/

namespace Xdd.HandOff

inductive Variant where
  | normal
  | lockstep
  | endToEndSource
  | endToEndDestination
deriving DecidableEq, Repr

/-- `TASK_REQ_IO`, `TASK_REQ_EOF` or `TASK_REQ_STOP`. -/
inductive Request where
  | io
  | eof
  | stop
deriving DecidableEq, Repr

/-- The request in `wd_task`, with a number that tells tasks apart. -/
structure Task where
  id : Nat
  request : Request
deriving DecidableEq, Repr

/-- Where a worker is in the loop of `xdd_worker_thread`. -/
inductive WorkerPc where
  | arriving
  | inBarrier
  /-- released, has not looked at its task -/
  | starting
  | running (id : Nat)
  /-- has cleared `WTSYNC_BUSY`, is about to add itself to the available workers -/
  | signalling
  | stopped
deriving DecidableEq, Repr

/-- A worker's flags and task. The last three fields only record the tasks it was
released with, has started and has finished. -/
structure Worker where
  pc : WorkerPc
  busy : Bool
  eofReceived : Bool
  task : Task
  released : List Nat
  started : List Nat
  finished : List Nat
deriving DecidableEq, Repr

/-- What the collection of all workers is for. -/
inductive Collection where
  /-- the end of an interval of a lockstep -/
  | interval
  /-- the end of the pass -/
  | pass
deriving DecidableEq, Repr

/-- Where the target thread is. -/
inductive TargetPc (Q : Nat) where
  | betweenPasses
  /-- the loop of `xdd_lockstep` over intervals -/
  | intervalTop
  | loopTop
  /-- in `xdd_get_any_available_worker_thread`, waiting for the count -/
  | awaitAny
  /-- looking at worker `i`, after `eof` idle workers that have received an end of file -/
  | scan (i eof : Nat)
  | located (w : Fin Q)
  | setUp (w : Fin Q)
  /-- in the barrier of `w` -/
  | release (w : Fin Q)
  /-- `xdd_targetpass_e2e_eof_src`: in `xdd_get_specific_worker_thread` -/
  | eofGet (q : Nat)
  | eofSetUp (w : Fin Q)
  | eofRelease (w : Fin Q)
  /-- collecting: in `xdd_get_specific_worker_thread` -/
  | collect (c : Collection) (q : Nat)
  /-- about to clear the flag of a worker it has collected -/
  | clear (c : Collection) (w : Fin Q)
  /-- passing the turn to the next target of a lockstep -/
  | ring
  /-- `xdd_target_thread_cleanup` -/
  | cleanup (q : Nat)
  | cleanupRelease (w : Fin Q)
  | finished
deriving DecidableEq, Repr

structure Config where
  variant : Variant
  queueDepth : Nat
  queueDepth_pos : 0 < queueDepth
  /-- operations in an interval of a lockstep -/
  interval : Nat

instance (cfg : Config) : NeZero cfg.queueDepth := ⟨Nat.ne_of_gt cfg.queueDepth_pos⟩

/-- `todo` and `quota` count the operations left in the pass and in the interval, and
`setups` records the worker of each task that was set up. -/
structure State (cfg : Config) where
  worker : Fin cfg.queueDepth → Worker
  pc : TargetPc cfg.queueDepth
  available : Nat
  todo : Nat
  quota : Nat
  canceled : Bool
  setups : List (Fin cfg.queueDepth)

/-- Every worker has been initialised and has counted itself. -/
def init (cfg : Config) : State cfg where
  worker := fun _ =>
    { pc := .arriving, busy := false, eofReceived := false, task := ⟨0, .io⟩,
      released := [], started := [], finished := [] }
  pc := .betweenPasses
  available := cfg.queueDepth
  todo := 0
  quota := 0
  canceled := false
  setups := []

variable {cfg : Config}

def State.setWorker (s : State cfg) (w : Fin cfg.queueDepth) (worker : Worker) : State cfg :=
  { s with worker := Function.update s.worker w worker }

/-! ## Workers -/

/-- The next step of worker `w`. -/
def workerStep (s : State cfg) (w : Fin cfg.queueDepth) : Option (State cfg) :=
  let worker := s.worker w
  match worker.pc with
  | .arriving => some (s.setWorker w { worker with pc := .inBarrier })
  | .starting =>
    match worker.task.request with
    | .stop =>
      some (s.setWorker w { worker with
        pc := .stopped
        started := worker.started ++ [worker.task.id]
        finished := worker.finished ++ [worker.task.id] })
    | _ =>
      some (s.setWorker w { worker with
        pc := .running worker.task.id
        started := worker.started ++ [worker.task.id] })
  | .running id =>
    some (s.setWorker w { worker with
      pc := .signalling
      busy := false
      finished := worker.finished ++ [id] })
  | .signalling =>
    match s.pc with
    -- the target holds the mutex of the count while it scans
    | .scan _ _ => none
    | _ =>
      some { s.setWorker w { worker with pc := .arriving } with available := s.available + 1 }
  | .inBarrier | .stopped => none

/-- A destination worker that is running its task receives an end of file. -/
def receiveEof (s : State cfg) (w : Fin cfg.queueDepth) : Option (State cfg) :=
  match cfg.variant, (s.worker w).pc with
  | .endToEndDestination, .running _ =>
    some (s.setWorker w { s.worker w with eofReceived := true })
  | _, _ => none

/-! ## The target thread -/

/-- What the tests before an I/O come to: go on, a time limit, or an abort or cancel. -/
inductive Tests where
  | good
  | limit
  | abort
deriving DecidableEq, Repr

/-- The code after the loop over the operations of a pass. -/
def afterLoop (s : State cfg) : State cfg :=
  if s.canceled then
    { s with pc := .betweenPasses }
  else
    match cfg.variant with
    | .endToEndSource => { s with pc := .eofGet 0 }
    | _ => { s with pc := .collect .pass 0 }

/-- The tests before an I/O, with worker `w` marked busy. A failed test clears the flag,
but a limit leaves it set in the loop of an end-to-end source. -/
def beforeIo (s : State cfg) (w : Fin cfg.queueDepth) (tests : Tests) : Option (State cfg) :=
  let cleared := s.setWorker w { s.worker w with busy := false }
  match cfg.variant, tests with
  | _, .good => some { s with pc := .setUp w }
  | .normal, _ => some (afterLoop cleared)
  | .lockstep, _ => some { cleared with pc := .collect .interval 0 }
  | .endToEndSource, .limit => some (afterLoop s)
  | .endToEndSource, .abort => some (afterLoop cleared)
  | .endToEndDestination, .limit => none
  | .endToEndDestination, .abort => some (afterLoop cleared)

/-- Write the task of a worker. -/
def writeTask (s : State cfg) (w : Fin cfg.queueDepth) (request : Request) : State cfg :=
  { s.setWorker w { s.worker w with task := ⟨s.setups.length, request⟩ } with
    setups := s.setups ++ [w] }

/-- The barrier opens when the worker is in it, too. -/
def openBarrier (s : State cfg) (w : Fin cfg.queueDepth) : Option (State cfg) :=
  if (s.worker w).pc = .inBarrier then
    some (s.setWorker w { s.worker w with
      pc := .starting
      released := (s.worker w).released ++ [(s.worker w).task.id] })
  else
    none

/-- `xdd_get_specific_worker_thread` returns when the worker is not busy. -/
def getSpecific (s : State cfg) (w : Fin cfg.queueDepth) : Option (State cfg) :=
  if (s.worker w).busy then none else some (s.setWorker w { s.worker w with busy := true })

/-- One worker in the scan of `xdd_get_any_available_worker_thread`. -/
def scanWorker (s : State cfg) (w : Fin cfg.queueDepth) (eof : Nat) : State cfg :=
  if (s.worker w).busy then
    { s with pc := .scan (w + 1) eof }
  else if cfg.variant = .endToEndDestination ∧ (s.worker w).eofReceived = true then
    if eof + 1 = cfg.queueDepth then afterLoop s else { s with pc := .scan (w + 1) (eof + 1) }
  else
    { s.setWorker w { s.worker w with busy := true } with pc := .located w }

/-- The target has collected all workers. -/
def collected (s : State cfg) : Collection → State cfg
  | .interval => { s with pc := .ring }
  | .pass => { s with pc := .betweenPasses }

/-- The flag of a collected worker is cleared; only `xdd_target_pass_loop` adds it to the
available workers. -/
def clearWorker (s : State cfg) (c : Collection) (w : Fin cfg.queueDepth) : State cfg :=
  let s := s.setWorker w { s.worker w with busy := false }
  match c, cfg.variant with
  | .pass, .normal | .pass, .lockstep =>
    { s with pc := .collect c (w + 1), available := s.available + 1 }
  | .pass, .endToEndDestination =>
    { s with pc := if s.canceled then .betweenPasses else .collect c (w + 1) }
  | _, _ => { s with pc := .collect c (w + 1) }

/-- The next step of the target thread where the environment has no choice. -/
def targetStep (s : State cfg) : Option (State cfg) :=
  match s.pc with
  | .intervalTop =>
    if s.todo = 0 then some (afterLoop s)
    else some { s with quota := min s.todo cfg.interval, pc := .loopTop }
  | .loopTop =>
    match cfg.variant with
    | .normal | .endToEndSource =>
      if s.todo = 0 then some (afterLoop s) else some { s with pc := .awaitAny }
    | .lockstep =>
      if s.quota = 0 then some { s with pc := .collect .interval 0 }
      else some { s with pc := .awaitAny }
    | .endToEndDestination => some { s with pc := .awaitAny }
  | .awaitAny =>
    if 0 < s.available then some { s with available := s.available - 1, pc := .scan 0 0 } else none
  | .scan i eof =>
    if h : i < cfg.queueDepth then some (scanWorker s ⟨i, h⟩ eof)
    else some { s with pc := .awaitAny }
  | .setUp w =>
    some { writeTask s w .io with todo := s.todo - 1, quota := s.quota - 1, pc := .release w }
  | .release w => (openBarrier s w).map fun s => { s with pc := .loopTop }
  | .eofGet q =>
    if h : q < cfg.queueDepth then
      (getSpecific s ⟨q, h⟩).map fun s => { s with pc := .eofSetUp ⟨q, h⟩ }
    else
      some { s with pc := .collect .pass 0 }
  | .eofSetUp w => some { writeTask s w .eof with pc := .eofRelease w }
  | .eofRelease w => (openBarrier s w).map fun s => { s with pc := .eofGet (w + 1) }
  | .collect c q =>
    if h : q < cfg.queueDepth then
      (getSpecific s ⟨q, h⟩).map fun s => { s with pc := .clear c ⟨q, h⟩ }
    else
      some (collected s c)
  | .clear c w => some (clearWorker s c w)
  | .cleanup q =>
    if h : q < cfg.queueDepth then
      some { writeTask s ⟨q, h⟩ .stop with pc := .cleanupRelease ⟨q, h⟩ }
    else
      some { s with pc := .finished }
  | .cleanupRelease w => (openBarrier s w).map fun s => { s with pc := .cleanup (w + 1) }
  | .betweenPasses | .located _ | .ring | .finished => none

inductive Action (cfg : Config) where
  | worker (w : Fin cfg.queueDepth)
  | receiveEof (w : Fin cfg.queueDepth)
  | target
  | tests (tests : Tests)
  /-- the turn comes back; `endStop` ends the pass because another target has ended its own -/
  | ring (endStop : Bool)
  | beginPass (ops : Nat)
  | beginCleanup
  | cancel

/-- One step of the target thread or of a worker. -/
def step (cfg : Config) (s : State cfg) : Action cfg → Option (State cfg)
  | .worker w => workerStep s w
  | .receiveEof w => HandOff.receiveEof s w
  | .target => targetStep s
  | .tests tests =>
    match s.pc with
    | .located w => beforeIo s w tests
    | _ => none
  | .ring endStop =>
    if s.pc = .ring then
      some { s with pc := .intervalTop, todo := if endStop then 0 else s.todo }
    else
      none
  | .beginPass ops =>
    if s.pc = .betweenPasses then
      some { s with
        todo := ops
        pc := if cfg.variant = .lockstep then .intervalTop else .loopTop }
    else
      none
  | .beginCleanup => if s.pc = .betweenPasses then some { s with pc := .cleanup 0 } else none
  | .cancel => some { s with canceled := true }

def State.setBusy (s : State cfg) (w : Fin cfg.queueDepth) (busy : Bool) : State cfg :=
  s.setWorker w { s.worker w with busy := busy }

/-- Worker `w` leaves its barrier. -/
def State.release (s : State cfg) (w : Fin cfg.queueDepth) : State cfg :=
  s.setWorker w { s.worker w with
    pc := .starting
    released := (s.worker w).released ++ [(s.worker w).task.id] }

/-- The steps of the target thread and its workers, one constructor for each branch. -/
inductive Step (cfg : Config) (s : State cfg) : Action cfg → State cfg → Prop where
  | arrive {w} : (s.worker w).pc = .arriving →
      Step cfg s (.worker w) (s.setWorker w { s.worker w with pc := .inBarrier })
  | start {w} : (s.worker w).pc = .starting → (s.worker w).task.request ≠ .stop →
      Step cfg s (.worker w) (s.setWorker w { s.worker w with
        pc := .running (s.worker w).task.id
        started := (s.worker w).started ++ [(s.worker w).task.id] })
  | stop {w} : (s.worker w).pc = .starting → (s.worker w).task.request = .stop →
      Step cfg s (.worker w) (s.setWorker w { s.worker w with
        pc := .stopped
        started := (s.worker w).started ++ [(s.worker w).task.id]
        finished := (s.worker w).finished ++ [(s.worker w).task.id] })
  | finish {w id} : (s.worker w).pc = .running id →
      Step cfg s (.worker w) (s.setWorker w { s.worker w with
        pc := .signalling
        busy := false
        finished := (s.worker w).finished ++ [id] })
  | signal {w} : (s.worker w).pc = .signalling → (∀ i eof, s.pc ≠ .scan i eof) →
      Step cfg s (.worker w)
        { s.setWorker w { s.worker w with pc := .arriving } with available := s.available + 1 }
  | receiveEof {w id} : cfg.variant = .endToEndDestination → (s.worker w).pc = .running id →
      Step cfg s (.receiveEof w) (s.setWorker w { s.worker w with eofReceived := true })
  | leaveLoop : s.pc = .intervalTop ∨ s.pc = .loopTop → Step cfg s .target (afterLoop s)
  | interval : s.pc = .intervalTop →
      Step cfg s .target { s with quota := min s.todo cfg.interval, pc := .loopTop }
  | await : s.pc = .loopTop → Step cfg s .target { s with pc := .awaitAny }
  | endInterval : s.pc = .loopTop → Step cfg s .target { s with pc := .collect .interval 0 }
  | takeAny : s.pc = .awaitAny → 0 < s.available →
      Step cfg s .target { s with available := s.available - 1, pc := .scan 0 0 }
  | scanBusy {w : Fin cfg.queueDepth} {eof} : s.pc = .scan w.val eof → (s.worker w).busy = true →
      Step cfg s .target { s with pc := .scan (w.val + 1) eof }
  | scanEof {w : Fin cfg.queueDepth} {eof} : s.pc = .scan w.val eof →
      cfg.variant = .endToEndDestination → (s.worker w).eofReceived = true →
      eof + 1 ≠ cfg.queueDepth →
      Step cfg s .target { s with pc := .scan (w.val + 1) (eof + 1) }
  | scanAllEof {w : Fin cfg.queueDepth} {eof} : s.pc = .scan w.val eof →
      cfg.variant = .endToEndDestination → (s.worker w).eofReceived = true →
      eof + 1 = cfg.queueDepth → Step cfg s .target (afterLoop s)
  | locate {w : Fin cfg.queueDepth} {eof} : s.pc = .scan w.val eof → (s.worker w).busy = false →
      ¬ (cfg.variant = .endToEndDestination ∧ (s.worker w).eofReceived = true) →
      Step cfg s .target { s.setBusy w true with pc := .located w }
  | scanEnd {i eof} : s.pc = .scan i eof → cfg.queueDepth ≤ i →
      Step cfg s .target { s with pc := .awaitAny }
  | setUp {w} : s.pc = .setUp w →
      Step cfg s .target
        { writeTask s w .io with todo := s.todo - 1, quota := s.quota - 1, pc := .release w }
  | release {w} : s.pc = .release w → (s.worker w).pc = .inBarrier →
      Step cfg s .target { s.release w with pc := .loopTop }
  | eofTake {w : Fin cfg.queueDepth} : s.pc = .eofGet w.val → (s.worker w).busy = false →
      Step cfg s .target { s.setBusy w true with pc := .eofSetUp w }
  | eofEnd {q} : s.pc = .eofGet q → cfg.queueDepth ≤ q →
      Step cfg s .target { s with pc := .collect .pass 0 }
  | eofSetUp {w} : s.pc = .eofSetUp w →
      Step cfg s .target { writeTask s w .eof with pc := .eofRelease w }
  | eofRelease {w} : s.pc = .eofRelease w → (s.worker w).pc = .inBarrier →
      Step cfg s .target { s.release w with pc := .eofGet (w.val + 1) }
  | collect {c} {w : Fin cfg.queueDepth} : s.pc = .collect c w.val → (s.worker w).busy = false →
      Step cfg s .target { s.setBusy w true with pc := .clear c w }
  | collected {c q} : s.pc = .collect c q → cfg.queueDepth ≤ q →
      Step cfg s .target (collected s c)
  | clear {c w} : s.pc = .clear c w →
      Step cfg s .target { s.setBusy w false with pc := .collect c (w.val + 1) }
  | clearCount {w} : s.pc = .clear .pass w →
      Step cfg s .target { s.setBusy w false with
        pc := .collect .pass (w.val + 1), available := s.available + 1 }
  | clearCanceled {w} : s.pc = .clear .pass w → s.canceled = true →
      Step cfg s .target { s.setBusy w false with pc := .betweenPasses }
  | cleanup {w : Fin cfg.queueDepth} : s.pc = .cleanup w.val →
      Step cfg s .target { writeTask s w .stop with pc := .cleanupRelease w }
  | cleaned {q} : s.pc = .cleanup q → cfg.queueDepth ≤ q →
      Step cfg s .target { s with pc := .finished }
  | cleanupRelease {w} : s.pc = .cleanupRelease w → (s.worker w).pc = .inBarrier →
      Step cfg s .target { s.release w with pc := .cleanup (w.val + 1) }
  | good {w} : s.pc = .located w → Step cfg s (.tests .good) { s with pc := .setUp w }
  | giveBack {w tests} : s.pc = .located w → tests ≠ .good →
      (tests = .limit → cfg.variant ≠ .endToEndSource) →
      Step cfg s (.tests tests) (afterLoop (s.setBusy w false))
  | giveBackTurn {w tests} : s.pc = .located w → tests ≠ .good → cfg.variant = .lockstep →
      Step cfg s (.tests tests) { s.setBusy w false with pc := .collect .interval 0 }
  | keepBusy {w} : s.pc = .located w → cfg.variant = .endToEndSource →
      Step cfg s (.tests .limit) (afterLoop s)
  | ring {endStop} : s.pc = .ring →
      Step cfg s (.ring endStop)
        { s with pc := .intervalTop, todo := if endStop then 0 else s.todo }
  | beginPass {ops pc} : s.pc = .betweenPasses → pc = .intervalTop ∨ pc = .loopTop →
      Step cfg s (.beginPass ops) { s with todo := ops, pc := pc }
  | beginCleanup : s.pc = .betweenPasses → Step cfg s .beginCleanup { s with pc := .cleanup 0 }
  | cancel : Step cfg s .cancel { s with canceled := true }

namespace Step

variable {s s' : State cfg} {w : Fin cfg.queueDepth}

theorem of_workerStep (h : workerStep s w = some s') : Step cfg s (.worker w) s' := by
  unfold workerStep at h
  cases hpc : (s.worker w).pc <;> simp only [hpc, reduceCtorEq] at h
  case arriving =>
    cases h
    exact .arrive hpc
  case starting =>
    split at h <;> cases h
    · exact .stop hpc ‹_›
    · exact .start hpc ‹_›
  case running id =>
    cases h
    exact .finish hpc
  case signalling =>
    split at h <;> cases h
    exact .signal hpc ‹_›

theorem of_receiveEof (h : HandOff.receiveEof s w = some s') : Step cfg s (.receiveEof w) s' := by
  unfold HandOff.receiveEof at h
  split at h <;> cases h
  exact .receiveEof ‹_› ‹_›

theorem of_openBarrier {pc : TargetPc cfg.queueDepth}
    (h : (openBarrier s w).map (fun s => { s with pc := pc }) = some s') :
    (s.worker w).pc = .inBarrier ∧ s' = { s.release w with pc := pc } := by
  unfold openBarrier at h
  split at h <;> cases h
  exact ⟨‹_›, rfl⟩

theorem of_getSpecific {pc : TargetPc cfg.queueDepth}
    (h : (getSpecific s w).map (fun s => { s with pc := pc }) = some s') :
    (s.worker w).busy = false ∧ s' = { s.setBusy w true with pc := pc } := by
  unfold getSpecific at h
  split at h <;> cases h
  exact ⟨Bool.eq_false_of_not_eq_true ‹_›, rfl⟩

theorem of_scanWorker {eof : Nat} (hpc : s.pc = .scan w.val eof) :
    Step cfg s .target (scanWorker s w eof) := by
  unfold scanWorker
  split
  · exact .scanBusy hpc ‹_›
  · split
    · rename_i heof
      split
      · exact .scanAllEof hpc heof.1 heof.2 ‹_›
      · exact .scanEof hpc heof.1 heof.2 ‹_›
    · exact .locate hpc (Bool.eq_false_of_not_eq_true ‹_›) ‹_›

theorem of_clearWorker {c : Collection} (hpc : s.pc = .clear c w) :
    Step cfg s .target (clearWorker s c w) := by
  unfold clearWorker
  dsimp only
  split
  · exact .clearCount hpc
  · exact .clearCount hpc
  · split
    · exact .clearCanceled hpc ‹_›
    · exact .clear hpc
  · exact .clear hpc

theorem of_targetStep (h : targetStep s = some s') : Step cfg s .target s' := by
  unfold targetStep at h
  split at h
  · -- `intervalTop`
    split at h <;> cases h
    · exact .leaveLoop (.inl ‹_›)
    · exact .interval ‹_›
  · -- `loopTop`
    split at h
    · split at h <;> cases h
      · exact .leaveLoop (.inr ‹_›)
      · exact .await ‹_›
    · split at h <;> cases h
      · exact .leaveLoop (.inr ‹_›)
      · exact .await ‹_›
    · split at h <;> cases h
      · exact .endInterval ‹_›
      · exact .await ‹_›
    · cases h
      exact .await ‹_›
  · split at h <;> cases h
    exact .takeAny ‹_› ‹_›
  · split at h <;> cases h
    · exact of_scanWorker ‹_›
    · exact .scanEnd ‹_› (not_lt.mp ‹_›)
  · cases h
    exact .setUp ‹_›
  · obtain ⟨hin, rfl⟩ := of_openBarrier h
    exact .release ‹_› hin
  · split at h
    · obtain ⟨hbusy, rfl⟩ := of_getSpecific h
      exact .eofTake ‹_› hbusy
    · cases h
      exact .eofEnd ‹_› (not_lt.mp ‹_›)
  · cases h
    exact .eofSetUp ‹_›
  · obtain ⟨hin, rfl⟩ := of_openBarrier h
    exact .eofRelease ‹_› hin
  · split at h
    · obtain ⟨hbusy, rfl⟩ := of_getSpecific h
      exact .collect ‹_› hbusy
    · cases h
      exact .collected ‹_› (not_lt.mp ‹_›)
  · cases h
    exact of_clearWorker ‹_›
  · split at h <;> cases h
    · exact .cleanup ‹_›
    · exact .cleaned ‹_› (not_lt.mp ‹_›)
  · obtain ⟨hin, rfl⟩ := of_openBarrier h
    exact .cleanupRelease ‹_› hin
  all_goals cases h

theorem of_beforeIo {tests : Tests} (hpc : s.pc = .located w)
    (h : beforeIo s w tests = some s') : Step cfg s (.tests tests) s' := by
  unfold beforeIo at h
  split at h <;> cases h
  · exact .good hpc
  · exact .giveBack hpc ‹_› (by simp [*])
  · exact .giveBackTurn hpc ‹_› ‹_›
  · exact .keepBusy hpc ‹_›
  · exact .giveBack hpc (by simp) (by simp)
  · exact .giveBack hpc (by simp) (by simp)

theorem of_eq_some {a : Action cfg} (h : step cfg s a = some s') : Step cfg s a s' := by
  cases a with
  | worker w => exact of_workerStep h
  | receiveEof w => exact of_receiveEof h
  | target => exact of_targetStep h
  | tests tests =>
      simp only [step] at h
      split at h
      · exact of_beforeIo ‹_› h
      · cases h
  | ring endStop =>
      simp only [step] at h
      split at h <;> cases h
      exact .ring ‹_›
  | beginPass ops =>
      simp only [step] at h
      split at h <;> cases h
      refine .beginPass ‹_› ?_
      split
      · exact .inl rfl
      · exact .inr rfl
  | beginCleanup =>
      simp only [step] at h
      split at h <;> cases h
      exact .beginCleanup ‹_›
  | cancel =>
      cases h
      exact .cancel

end Step

end Xdd.HandOff
