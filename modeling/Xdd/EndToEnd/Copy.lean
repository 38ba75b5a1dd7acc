import Xdd.Library.Transition

/-!
# An end-to-end copy

The source and the destination of a copy are two targets with the same queue depth.
Worker `w` of the source reads blocks and sends them to worker `w` of the destination,
which writes them. A `Lane` is such a pair of workers with the connection between them;
a message sent on it arrives whole and in order.

The source hands its blocks to whichever worker is idle and then one end-of-file task
to each worker. The destination hands receive tasks to idle workers until all of them
have seen the end of file. The results of `pread` and `pwrite` are chosen by the
environment, and a step is one test or one system call of one thread.
-/

namespace Xdd.EndToEnd

/-- A request of the source pass. `xdd_targetpass_e2e_task_setup_src` never sets up an
empty one. -/
structure Block where
  opNumber : Nat
  byteOffset : Nat
  xferSize : Nat
  xferSize_pos : 0 < xferSize
deriving DecidableEq, Repr

/-- The part of a header and the data behind it that the destination reads. The magic
number tells a data message from an end of file. -/
inductive Message where
  | dataReady (sequenceNumber byteOffset dataLength : Nat) (data : List UInt8)
  | eof
deriving DecidableEq, Repr

/-- A `pwrite` of the destination: what it was asked for and the bytes it wrote. -/
structure Write where
  byteOffset : Nat
  xferSize : Nat
  data : List UInt8
deriving DecidableEq, Repr

/-- Where a source worker is; it is `WTSYNC_BUSY` except when idle. -/
inductive SourcePhase where
  | idle
  /-- located by the target thread, no task yet -/
  | held
  | assigned (b : Block)
  | reading (b : Block)
  | afterIo (b : Block) (status : Int)
  | eofTask
deriving DecidableEq, Repr

inductive DestPhase where
  | idle
  | receiving
  | writing (byteOffset xferSize : Nat) (data : List UInt8)
deriving DecidableEq, Repr

structure Config where
  queueDepth : Nat
  queueDepth_pos : 0 < queueDepth
  /-- the requests of the source pass, in order -/
  plan : List Block
  /-- the source file -/
  file : Nat → UInt8
  /-- what the source buffers hold at first -/
  stale : Nat → Nat → UInt8
  /-- `-stoponerror` on the source -/
  stopOnError : Bool

instance (cfg : Config) : NeZero cfg.queueDepth := ⟨Nat.ne_of_gt cfg.queueDepth_pos⟩

/-- The last four fields only record what was issued, received and written. -/
structure Lane where
  source : SourcePhase
  buffer : Nat → UInt8
  channel : List Message
  dest : DestPhase
  eofReceived : Bool
  issued : List Block
  eofIssued : Bool
  received : List Message
  written : List Write

/-- The bytes of a buffer or a file from a position on. -/
def bytesAt (contents : Nat → UInt8) (offset length : Nat) : List UInt8 :=
  (List.range length).map fun i => contents (offset + i)

@[simp] theorem length_bytesAt (contents : Nat → UInt8) (offset length : Nat) :
    (bytesAt contents offset length).length = length := by
  simp [bytesAt]

theorem getElem?_bytesAt {contents : Nat → UInt8} {offset length i : Nat} {c : UInt8}
    (h : (bytesAt contents offset length)[i]? = some c) : c = contents (offset + i) := by
  obtain ⟨hi, hc⟩ := List.getElem?_eq_some_iff.mp h
  simpa [bytesAt] using hc.symm

/-- `xdd_e2e_src_send`: the header takes its length from the task, whatever was read. -/
def srcSend (buffer : Nat → UInt8) (b : Block) : Message :=
  .dataReady b.opNumber b.byteOffset b.xferSize (bytesAt buffer 0 b.xferSize)

/-- A `pread` with this status puts the bytes it read at the front of the buffer. -/
def pread (file buffer : Nat → UInt8) (b : Block) (status : Int) : Nat → UInt8 :=
  fun i => if (i : Int) < status then file (b.byteOffset + i) else buffer i

/-- The results a system call can have for a request of this size. -/
def Result (size : Nat) (status : Int) : Prop := -1 ≤ status ∧ status ≤ size

instance (size : Nat) (status : Int) : Decidable (Result size status) :=
  inferInstanceAs (Decidable (_ ∧ _))

/-! ## The two workers of a lane -/

inductive WorkerAction where
  /-- a source worker tests for an abort before its I/O -/
  | checkAbort
  | read (status : Int)
  /-- `xdd_worker_thread_ttd_after_io_op` -/
  | afterIoOp
  /-- `xdd_e2e_eof_source_side` -/
  | eofSourceSide
  /-- `xdd_e2e_before_io_op` of the destination -/
  | beforeIoOp
  | write (status : Int)
deriving DecidableEq, Repr

namespace Lane

/-- The next step of the source worker or of the destination worker of a lane. -/
def work (cfg : Config) (abort : Bool) (l : Lane) : WorkerAction → Option Lane
  | .checkAbort =>
    match l.source with
    | .assigned b =>
      if abort then some { l with source := .idle } else some { l with source := .reading b }
    | _ => none
  | .read status =>
    match l.source with
    | .reading b =>
      if Result b.xferSize status then
        some { l with
          source := .afterIo b status
          buffer := pread cfg.file l.buffer b status }
      else
        none
    | _ => none
  | .afterIoOp =>
    match l.source with
    | .afterIo b status =>
      -- an abort skips the end-to-end processing, and so does an empty or failed read
      if abort = false ∧ 0 < status then
        some { l with source := .idle, channel := l.channel ++ [srcSend l.buffer b] }
      else
        some { l with source := .idle }
    | _ => none
  | .eofSourceSide =>
    match l.source with
    | .eofTask => some { l with source := .idle, channel := l.channel ++ [.eof] }
    | _ => none
  | .beforeIoOp =>
    match l.dest, l.channel with
    | .receiving, .dataReady sequenceNumber byteOffset dataLength data :: rest =>
      some { l with
        channel := rest
        dest := .writing byteOffset dataLength data
        received := l.received ++ [.dataReady sequenceNumber byteOffset dataLength data] }
    | .receiving, .eof :: rest =>
      some { l with
        channel := rest
        dest := .idle
        eofReceived := true
        received := l.received ++ [.eof] }
    | _, _ => none
  | .write status =>
    match l.dest with
    | .writing byteOffset xferSize data =>
      if Result xferSize status then
        some { l with
          dest := .idle
          written := l.written ++ [⟨byteOffset, xferSize, data.take status.toNat⟩] }
      else
        none
    | _ => none

/-- Whether the step is a read that fails or is short. -/
def readFails (l : Lane) : WorkerAction → Bool
  | .read status =>
    match l.source with
    | .reading b => status != b.xferSize
    | _ => false
  | _ => false

/-- Whether the step is a write that fails or is short. -/
def writeFails (l : Lane) : WorkerAction → Bool
  | .write status =>
    match l.dest with
    | .writing _ xferSize _ => status != xferSize
    | _ => false
  | _ => false

end Lane

/-- The steps of `Lane.work`, one constructor for each branch. -/
inductive Work (cfg : Config) (abort : Bool) (l : Lane) : WorkerAction → Lane → Prop where
  | quit {b} : l.source = .assigned b → abort = true →
      Work cfg abort l .checkAbort { l with source := .idle }
  | go {b} : l.source = .assigned b → abort = false →
      Work cfg abort l .checkAbort { l with source := .reading b }
  | read {b status} : l.source = .reading b → Result b.xferSize status →
      Work cfg abort l (.read status) { l with
        source := .afterIo b status
        buffer := pread cfg.file l.buffer b status }
  | send {b status} : l.source = .afterIo b status → abort = false → 0 < status →
      Work cfg abort l .afterIoOp { l with
        source := .idle
        channel := l.channel ++ [srcSend l.buffer b] }
  | skip {b status} : l.source = .afterIo b status → abort = true ∨ status ≤ 0 →
      Work cfg abort l .afterIoOp { l with source := .idle }
  | sendEof : l.source = .eofTask →
      Work cfg abort l .eofSourceSide { l with
        source := .idle
        channel := l.channel ++ [.eof] }
  | receive {sequenceNumber byteOffset dataLength data rest} : l.dest = .receiving →
      l.channel = .dataReady sequenceNumber byteOffset dataLength data :: rest →
      Work cfg abort l .beforeIoOp { l with
        channel := rest
        dest := .writing byteOffset dataLength data
        received := l.received ++ [.dataReady sequenceNumber byteOffset dataLength data] }
  | receiveEof {rest} : l.dest = .receiving → l.channel = .eof :: rest →
      Work cfg abort l .beforeIoOp { l with
        channel := rest
        dest := .idle
        eofReceived := true
        received := l.received ++ [.eof] }
  | write {byteOffset xferSize data status} : l.dest = .writing byteOffset xferSize data →
      Result xferSize status →
      Work cfg abort l (.write status) { l with
        dest := .idle
        written := l.written ++ [⟨byteOffset, xferSize, data.take status.toNat⟩] }

theorem Work.of_eq_some {cfg : Config} {abort : Bool} {l l' : Lane} {a : WorkerAction}
    (h : l.work cfg abort a = some l') : Work cfg abort l a l' := by
  cases a with
  | checkAbort =>
      simp only [Lane.work] at h
      split at h
      · split at h <;> cases h
        · exact .quit ‹_› ‹_›
        · exact .go ‹_› (Bool.eq_false_iff.mpr ‹_›)
      · cases h
  | read status =>
      simp only [Lane.work] at h
      split at h
      · split at h <;> cases h
        exact .read ‹_› ‹_›
      · cases h
  | afterIoOp =>
      simp only [Lane.work] at h
      split at h
      · split at h <;> cases h
        · rename_i hsend
          exact .send ‹_› hsend.1 hsend.2
        · rename_i hskip
          refine .skip ‹_› ?_
          cases abort <;> simp_all
      · cases h
  | eofSourceSide =>
      simp only [Lane.work] at h
      split at h <;> cases h
      exact .sendEof ‹_›
  | beforeIoOp =>
      simp only [Lane.work] at h
      split at h <;> cases h
      · exact .receive ‹_› ‹_›
      · exact .receiveEof ‹_› ‹_›
  | write status =>
      simp only [Lane.work] at h
      split at h
      · split at h <;> cases h
        exact .write ‹_› ‹_›
      · cases h

/-! ## The two target threads -/

/-- Where the source target thread is in `xdd_targetpass_e2e_loop_src`. -/
inductive Stage (Q : Nat) where
  | loop
  /-- located an idle worker, about to make the tests before an I/O -/
  | located (w : Fin Q)
  /-- about to give worker `q` its end-of-file task -/
  | eof (q : Nat)
deriving DecidableEq, Repr

/-- `success` is `RESTART_FLAG_SUCCESSFUL_COMPLETION` of the destination. -/
structure State (cfg : Config) where
  lane : Fin cfg.queueDepth → Lane
  todo : List Block
  stage : Stage cfg.queueDepth
  abort : Bool
  passEnded : Bool
  success : Bool

def init (cfg : Config) : State cfg where
  lane := fun w =>
    { source := .idle, buffer := cfg.stale w, channel := [], dest := .idle, eofReceived := false,
      issued := [], eofIssued := false, received := [], written := [] }
  todo := cfg.plan
  stage := .loop
  abort := false
  passEnded := false
  success := false

inductive Action (cfg : Config) where
  | worker (w : Fin cfg.queueDepth) (a : WorkerAction)
  /-- the source locates an idle worker for its next block -/
  | locate (w : Fin cfg.queueDepth)
  /-- the source makes its tests and releases the worker with a task -/
  | release
  /-- the source has no bytes left -/
  | leaveLoop
  /-- `xdd_targetpass_e2e_eof_src` -/
  | eofSrc
  /-- the destination gives an idle worker a receive task -/
  | assign (w : Fin cfg.queueDepth)
  /-- every destination worker has received its end of file -/
  | endPass
  /-- the destination target thread goes on after its pass -/
  | complete

variable {cfg : Config}

def State.setLane (s : State cfg) (w : Fin cfg.queueDepth) (l : Lane) : State cfg :=
  { s with lane := Function.update s.lane w l }

theorem State.forall_setLane {s : State cfg} {w : Fin cfg.queueDepth} {l : Lane}
    (P : Fin cfg.queueDepth → Lane → Prop) (hw : P w l) (h : ∀ i ≠ w, P i (s.lane i)) :
    ∀ i, P i ((s.setLane w l).lane i) :=
  (Function.forall_update_iff s.lane P).mpr ⟨hw, h⟩

/-- One step of a thread of the source or of the destination. -/
def step (cfg : Config) (s : State cfg) : Action cfg → Option (State cfg)
  | .worker w a =>
    ((s.lane w).work cfg s.abort a).map fun l =>
      { s.setLane w l with abort := s.abort || cfg.stopOnError && (s.lane w).readFails a }
  | .locate w =>
    if s.stage = .loop ∧ s.todo ≠ [] ∧ (s.lane w).source = .idle then
      some { s.setLane w { s.lane w with source := .held } with stage := .located w }
    else
      none
  | .release =>
    match s.stage, s.todo with
    | .located w, b :: rest =>
      if s.abort then
        some { s.setLane w { s.lane w with source := .idle } with stage := .eof 0 }
      else
        some { s.setLane w { s.lane w with
            source := .assigned b
            issued := (s.lane w).issued ++ [b] } with
          stage := .loop
          todo := rest }
    | _, _ => none
  | .leaveLoop =>
    if s.stage = .loop ∧ s.todo = [] then some { s with stage := .eof 0 } else none
  | .eofSrc =>
    match s.stage with
    | .eof q =>
      if h : q < cfg.queueDepth then
        if (s.lane ⟨q, h⟩).source = .idle then
          some { s.setLane ⟨q, h⟩ { s.lane ⟨q, h⟩ with source := .eofTask, eofIssued := true } with
            stage := .eof (q + 1) }
        else
          none
      else
        none
    | _ => none
  | .assign w =>
    if s.passEnded = false ∧ (s.lane w).dest = .idle ∧ (s.lane w).eofReceived = false then
      some (s.setLane w { s.lane w with dest := .receiving })
    else
      none
  | .endPass =>
    if ∀ w, (s.lane w).dest = .idle ∧ (s.lane w).eofReceived = true then
      some { s with passEnded := true }
    else
      none
  | .complete => if s.passEnded then some { s with success := true } else none

/-- The steps of the system, one constructor for each branch of `step`. -/
inductive Step (cfg : Config) (s : State cfg) : Action cfg → State cfg → Prop where
  | worker {w a l} : Work cfg s.abort (s.lane w) a l →
      Step cfg s (.worker w a) { s.setLane w l with
        abort := s.abort || cfg.stopOnError && (s.lane w).readFails a }
  | locate {w} : s.stage = .loop → s.todo ≠ [] → (s.lane w).source = .idle →
      Step cfg s (.locate w) { s.setLane w { s.lane w with source := .held } with
        stage := .located w }
  | turnBack {w} : s.stage = .located w → s.abort = true →
      Step cfg s .release { s.setLane w { s.lane w with source := .idle } with stage := .eof 0 }
  | release {w b rest} : s.stage = .located w → s.todo = b :: rest → s.abort = false →
      Step cfg s .release { s.setLane w { s.lane w with
          source := .assigned b
          issued := (s.lane w).issued ++ [b] } with
        stage := .loop
        todo := rest }
  | leaveLoop : s.stage = .loop → s.todo = [] → Step cfg s .leaveLoop { s with stage := .eof 0 }
  | eofSrc {w} : s.stage = .eof w.val → (s.lane w).source = .idle →
      Step cfg s .eofSrc { s.setLane w { s.lane w with source := .eofTask, eofIssued := true } with
        stage := .eof (w.val + 1) }
  | assign {w} : s.passEnded = false → (s.lane w).dest = .idle → (s.lane w).eofReceived = false →
      Step cfg s (.assign w) (s.setLane w { s.lane w with dest := .receiving })
  | endPass : (∀ w, (s.lane w).dest = .idle ∧ (s.lane w).eofReceived = true) →
      Step cfg s .endPass { s with passEnded := true }
  | complete : s.passEnded = true → Step cfg s .complete { s with success := true }

theorem Step.of_eq_some {s s' : State cfg} {a : Action cfg} (h : step cfg s a = some s') :
    Step cfg s a s' := by
  cases a with
  | worker w a =>
      obtain ⟨l, hl, rfl⟩ := Option.map_eq_some_iff.mp h
      exact .worker (.of_eq_some hl)
  | release =>
      simp only [step] at h
      split at h
      · split at h <;> cases h
        · exact .turnBack ‹_› ‹_›
        · exact .release ‹_› ‹_› (Bool.eq_false_iff.mpr ‹_›)
      · cases h
  | eofSrc =>
      simp only [step] at h
      split at h
      · split at h
        · split at h <;> cases h
          exact .eofSrc ‹_› ‹_›
        · cases h
      · cases h
  | locate w =>
      simp only [step] at h
      split at h <;> cases h
      rename_i hguard
      exact .locate hguard.1 hguard.2.1 hguard.2.2
  | leaveLoop =>
      simp only [step] at h
      split at h <;> cases h
      rename_i hguard
      exact .leaveLoop hguard.1 hguard.2
  | assign w =>
      simp only [step] at h
      split at h <;> cases h
      rename_i hguard
      exact .assign hguard.1 hguard.2.1 hguard.2.2
  | endPass =>
      simp only [step] at h
      split at h <;> cases h
      exact .endPass ‹_›
  | complete =>
      simp only [step] at h
      split at h <;> cases h
      exact .complete ‹_›

end Xdd.EndToEnd
