import Xdd.Results.Run

/-!
# The counters behind the results

A worker whose I/O has returned compares the status with the transfer size twice: for its own
counters, and under the counters mutex for those of its target. A target resets its counters
before each pass. When all targets have ended a pass, the results manager extracts the counters
of each of them and adds them to the average results of the target, which it clears in pass 1;
at the end of the run it adds up the average results of all targets.

The ledger runs beside the threads and barriers of a run. It splits the return of an I/O into
the return itself, the update of the worker's own counters and the update under the mutex, and
it keeps a record of the operations.
-/

namespace Xdd.Results

inductive OpType where
  | read
  | write
  | noop
deriving DecidableEq, Repr

/-- The counters of `xint_target_counters_t` that are reported, and those of `results_t`. -/
@[ext] structure Totals where
  bytesXfered : Nat
  bytesRead : Nat
  bytesWritten : Nat
  opCount : Nat
  readOpCount : Nat
  writeOpCount : Nat
  errorCount : Nat
deriving DecidableEq, Repr

/-- The incremented counters of `xdd_combine_results`. -/
def combineResults (dest source : Totals) : Totals where
  bytesXfered := dest.bytesXfered + source.bytesXfered
  bytesRead := dest.bytesRead + source.bytesRead
  bytesWritten := dest.bytesWritten + source.bytesWritten
  opCount := dest.opCount + source.opCount
  readOpCount := dest.readOpCount + source.readOpCount
  writeOpCount := dest.writeOpCount + source.writeOpCount
  errorCount := dest.errorCount + source.errorCount

/-- What `memset` leaves, and `xdd_init_target_data_before_pass`. -/
def Totals.zero : Totals where
  bytesXfered := 0
  bytesRead := 0
  bytesWritten := 0
  opCount := 0
  readOpCount := 0
  writeOpCount := 0
  errorCount := 0

/-- `xdd_worker_thread_update_local_counters`: the error count of the worker. -/
def updateLocalCounters (xferSize : Nat) (status : Int) : Nat :=
  if status = xferSize then 0 else 1

/-- `xdd_worker_thread_update_target_counters` -/
def updateTargetCounters (counters : Totals) (opType : OpType) (xferSize : Nat) (status : Int)
    (errorCount : Nat) : Totals :=
  let counters :=
    if status = xferSize then
      let counters := { counters with
        bytesXfered := counters.bytesXfered + xferSize
        opCount := counters.opCount + 1 }
      match opType with
      | .read => { counters with
          bytesRead := counters.bytesRead + xferSize
          readOpCount := counters.readOpCount + 1 }
      | .write => { counters with
          bytesWritten := counters.bytesWritten + xferSize
          writeOpCount := counters.writeOpCount + 1 }
      | .noop => counters
    else counters
  { counters with errorCount := counters.errorCount + errorCount }

/-- How far a worker is with an operation whose I/O it has started. -/
inductive Progress where
  | waiting
  /-- `task_io_status` is set -/
  | returned (status : Int)
  /-- the worker's own counters are updated -/
  | counted (status : Int) (errorCount : Nat)
deriving DecidableEq, Repr

structure WorkerData where
  opType : OpType
  progress : Progress
deriving DecidableEq, Repr

/-- An operation of a pass whose I/O has returned. -/
structure Op where
  pass : Nat
  opType : OpType
  xferSize : Nat
  status : Int
deriving DecidableEq, Repr

/-- `average` are the `target_average_resultsp`, `passResults` the results of every pass that
has been processed and `combined` those of the run. `ops` is a record. -/
structure Ledger (cfg : Config) where
  run : State cfg
  worker : (t : Fin cfg.targets) → Fin (cfg.queueDepth t) → WorkerData
  counters : Fin cfg.targets → Totals
  average : Fin cfg.targets → Totals
  passResults : List (Fin cfg.targets → Totals)
  combined : Option Totals
  ops : Fin cfg.targets → List Op

inductive LedgerAction (cfg : Config) where
  /-- a step of the run, other than the ones below -/
  | run (a : Action cfg)
  | assign (t : Fin cfg.targets) (w : Fin (cfg.queueDepth t)) (opType : OpType) (xferSize : Nat)
  | ioReturns (t : Fin cfg.targets) (w : Fin (cfg.queueDepth t)) (status : Int)
  | updateLocalCounters (t : Fin cfg.targets) (w : Fin (cfg.queueDepth t))
  | updateTargetCounters (t : Fin cfg.targets) (w : Fin (cfg.queueDepth t))

variable {cfg : Config}

/-- The steps of a run that the ledger takes in its own way. -/
def Action.booked : Action cfg → Bool
  | .worker _ (.assign _ (.io _)) | .worker _ (.finishIo ..) => true
  | _ => false

namespace Ledger

/-- The average results are allocated and not cleared. -/
def init (average : Fin cfg.targets → Totals) : Ledger cfg where
  run := Results.init cfg
  worker := fun _ _ => { opType := .noop, progress := .waiting }
  counters := fun _ => .zero
  average := average
  passResults := []
  combined := none
  ops := fun _ => []

def setWorker (l : Ledger cfg) (t : Fin cfg.targets) (w : Fin (cfg.queueDepth t))
    (data : WorkerData) : Ledger cfg :=
  { l with worker := Function.update l.worker t (Function.update (l.worker t) w data) }

/-- `xdd_process_pass_results`, with `xdd_extract_pass_results` -/
def processPassResults (l : Ledger cfg) : Ledger cfg :=
  { l with
    passResults := l.passResults ++ [l.counters]
    average := fun t =>
      combineResults (if (l.run.target t).passNumber = 1 then .zero else l.average t)
        (l.counters t) }

/-- `xdd_process_run_results` -/
def processRunResults (l : Ledger cfg) : Ledger cfg :=
  { l with
    combined := some ((List.finRange cfg.targets).foldl
      (fun combined t => combineResults combined (l.average t)) .zero) }

/-- What a step of the run does to the ledger. -/
def follow (l : Ledger cfg) : Action cfg → Ledger cfg
  | .target t =>
    if (l.run.target t).pc = .checkComplete ∧ l.run.runComplete = false then
      { l with counters := Function.update l.counters t .zero }
    else l
  | .manager =>
    match l.run.manager with
    | .checkAbort => if l.run.abort then l.processRunResults else l
    | .checkComplete =>
      if l.run.runComplete then l.processRunResults else l.processPassResults
    | _ => l
  | _ => l

def step (l : Ledger cfg) : LedgerAction cfg → Option (Ledger cfg)
  | .run a =>
    if a.booked then none
    else (Results.step cfg l.run a).map fun run => { l.follow a with run := run }
  | .assign t w opType xferSize =>
    (Results.step cfg l.run (.worker t (.assign w (.io xferSize)))).map fun run =>
      { l.setWorker t w { opType := opType, progress := .waiting } with run := run }
  | .ioReturns t w status =>
    match (l.run.target t).worker w, (l.worker t w).progress with
    | .inIo xferSize, .waiting =>
      some { l.setWorker t w { l.worker t w with progress := .returned status } with
        ops := Function.update l.ops t (l.ops t ++
          [{ pass := (l.run.target t).passNumber, opType := (l.worker t w).opType,
             xferSize := xferSize, status := status }]) }
    | _, _ => none
  | .updateLocalCounters t w =>
    match (l.run.target t).worker w, (l.worker t w).progress with
    | .inIo xferSize, .returned status =>
      some (l.setWorker t w { l.worker t w with
        progress := .counted status (Results.updateLocalCounters xferSize status) })
    | _, _ => none
  | .updateTargetCounters t w =>
    match (l.run.target t).worker w, (l.worker t w).progress with
    | .inIo xferSize, .counted status errorCount =>
      (Results.step cfg l.run (.worker t (.finishIo w status))).map fun run =>
        { l.setWorker t w { l.worker t w with progress := .waiting } with
          run := run
          counters := Function.update l.counters t
            (Results.updateTargetCounters (l.counters t) (l.worker t w).opType xferSize status
              errorCount) }
    | _, _ => none

/-- No cancel and no abort: not of the run, and not of a target that stops on an error. -/
def Unhindered (l : Ledger cfg) : LedgerAction cfg → Prop
  | .run .cancel | .run .raiseAbort => False
  | .updateTargetCounters t w =>
    match (l.worker t w).progress with
    | .counted _ errorCount => cfg.stopOnError = true → errorCount = 0
    | _ => True
  | _ => True

instance (l : Ledger cfg) : (a : LedgerAction cfg) → Decidable (Unhindered l a)
  | .run .cancel | .run .raiseAbort => isFalse id
  | .updateTargetCounters t w =>
    match h : (l.worker t w).progress with
    | .counted _ errorCount =>
      decidable_of_iff (cfg.stopOnError = true → errorCount = 0) (by simp [Unhindered, h])
    | .waiting | .returned _ => isTrue (by simp [Unhindered, h])
  | .run (.worker ..) | .run (.target _) | .run (.release _) | .run .manager | .run .main
  | .run .runTimeExpires | .assign .. | .ioReturns .. | .updateLocalCounters .. => isTrue trivial

/-- The operations of a pass. -/
def operations (l : Ledger cfg) (t : Fin cfg.targets) (pass : Nat) : List Op :=
  (l.ops t).filter fun op => op.pass == pass

end Ledger

/-- The whole transfer was made. -/
def Op.whole (op : Op) : Bool := op.status == op.xferSize

/-- What is to be reported of operations. -/
def Totals.of (ops : List Op) : Totals :=
  let whole := ops.filter Op.whole
  let reads := whole.filter fun op => op.opType == .read
  let writes := whole.filter fun op => op.opType == .write
  { bytesXfered := (whole.map Op.xferSize).sum
    bytesRead := (reads.map Op.xferSize).sum
    bytesWritten := (writes.map Op.xferSize).sum
    opCount := whole.length
    readOpCount := reads.length
    writeOpCount := writes.length
    errorCount := (ops.filter fun op => !op.whole).length }

end Xdd.Results
