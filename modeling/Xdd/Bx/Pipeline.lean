import Xdd.Library.Transition

/-!
# The pipeline of `bx`

The input target gives buffers to its workers, which read into them and put them on the buffer
queue of the output target; the workers of that target write them out and put them back on the
queue of the input target. A worker that has nothing to do puts itself on the worker queue of its
target and waits to be released. In the end the input target collects its workers and all
buffers, sets the end-of-file flag in the last buffer that came back, and puts the buffer of the
last worker that came back on the output queue.

The queues have mutexes of their own, and a step on them is atomic. A worker tests its
`bx_wd_released` and goes to sleep in two steps, since its target sets the flag and wakes it up
without the mutex of the worker. The runs are those in which every `pread` and `pwrite` is whole;
what a worker does after a short or failed one is left out.
-/

namespace Xdd.Bx

inductive Side where
  | input
  | output
deriving DecidableEq, Repr

/-- `bx_td_next_buffer_queue` -/
def Side.next : Side → Side
  | .input => .output
  | .output => .input

structure Config where
  fileSize : Nat
  fileSize_pos : 0 < fileSize
  transferSize : Nat
  transferSize_pos : 0 < transferSize
  buffers : Nat
  buffers_pos : 0 < buffers
  workers : Side → Nat
  workers_pos : ∀ side, 0 < workers side
  /-- which of the targets has the number 0, if one of them has -/
  zero : Option Side

structure Range where
  offset : Nat
  size : Nat
deriving DecidableEq, Repr

/-- The number of operations. -/
def Config.ops (cfg : Config) : Nat := (cfg.fileSize + cfg.transferSize - 1) / cfg.transferSize

/-- The range of an operation. -/
def Config.range (cfg : Config) (op : Nat) : Range where
  offset := op * cfg.transferSize
  size := min cfg.transferSize (cfg.fileSize - op * cfg.transferSize)

/-- `bx_buffer_header`; `content` is the range that the memory was read from. -/
structure Header where
  range : Range
  content : Range
  eof : Bool
deriving DecidableEq, Repr

inductive WorkerPhase where
  /-- about to put itself on the queue -/
  | start
  /-- about to test `bx_wd_released` -/
  | test
  /-- has seen that it is not released -/
  | drowsy
  /-- in `pthread_cond_wait` -/
  | asleep
  | io
  /-- about to put its buffer on the next queue -/
  | put
  | terminated
deriving DecidableEq, Repr

/-- `bx_wd`; `next` is `bx_wd_next_buffer_queue`, which is 0 at first. -/
structure Worker (buffers : Nat) where
  phase : WorkerPhase
  released : Bool
  terminate : Bool
  bufhdrp : Option (Fin buffers)
  next : Option Side
deriving DecidableEq, Repr

/-- `pthread_cond_broadcast` -/
def Worker.broadcast {buffers : Nat} (worker : Worker buffers) : Worker buffers :=
  { worker with phase := if worker.phase = .asleep then .test else worker.phase }

/-- The order in which a target fills in the structures of a worker. -/
inductive Stage where
  | fill
  | release
  | next
  | broadcast
deriving DecidableEq, Repr

/-- Where `target_input` is. -/
inductive Input (buffers workers : Nat) where
  | getWorker
  | getBuffer (w : Fin workers)
  | hand (w : Fin workers) (b : Fin buffers) (stage : Stage)
  | collectWorkers (left : Nat) (last : Option (Fin workers))
  | collectBuffers (left : Nat) (last : Option (Fin workers)) (buffer : Option (Fin buffers))
  | finished
  /-- has put a null pointer on a queue -/
  | crashed
deriving DecidableEq, Repr

/-- Where `target_output` is. -/
inductive Output (buffers workers : Nat) where
  | getBuffer
  | getWorker (b : Fin buffers)
  | hand (w : Fin workers) (b : Fin buffers) (stage : Stage)
  | terminate (left : Nat)
  | done
deriving DecidableEq, Repr

/-- A call of `pwrite`: where the data went, and where it had been read. -/
structure Write where
  range : Range
  content : Range
deriving DecidableEq, Repr

/-- `ops` are the operations that have been scheduled; `written` is a record. -/
structure State (cfg : Config) where
  input : Input cfg.buffers (cfg.workers .input)
  output : Output cfg.buffers (cfg.workers .output)
  ops : Nat
  queue : Side → List (Fin cfg.buffers)
  idle : (side : Side) → List (Fin (cfg.workers side))
  worker : (side : Side) → Fin (cfg.workers side) → Worker cfg.buffers
  header : Fin cfg.buffers → Header
  written : List Write

/-- All buffers are on the queue of the input target, and the threads are started. -/
def init (cfg : Config) : State cfg where
  input := .getWorker
  output := .getBuffer
  ops := 0
  queue
    | .input => List.finRange cfg.buffers
    | .output => []
  idle := fun _ => []
  worker := fun _ _ =>
    { phase := .start, released := false, terminate := false, bufhdrp := none, next := none }
  header := fun _ => { range := ⟨0, 0⟩, content := ⟨0, 0⟩, eof := false }
  written := []

inductive Action (cfg : Config) where
  | input
  | output
  | worker (side : Side) (w : Fin (cfg.workers side))

variable {cfg : Config}

namespace State

def setWorker (s : State cfg) (side : Side) (w : Fin (cfg.workers side))
    (worker : Worker cfg.buffers) : State cfg :=
  { s with worker := Function.update s.worker side (Function.update (s.worker side) w worker) }

def setHeader (s : State cfg) (b : Fin cfg.buffers) (header : Header) : State cfg :=
  { s with header := Function.update s.header b header }

def setQueue (s : State cfg) (side : Side) (queue : List (Fin cfg.buffers)) : State cfg :=
  { s with queue := Function.update s.queue side queue }

def setIdle (s : State cfg) (side : Side) (idle : List (Fin (cfg.workers side))) : State cfg :=
  { s with idle := Function.update s.idle side idle }

/-- `bh_enqueue`; a queue of a target that is none of the two is not looked at. -/
def bhEnqueue (s : State cfg) (b : Fin cfg.buffers) : Option Side → State cfg
  | some side => s.setQueue side (s.queue side ++ [b])
  | none => s

/-- The queue that a worker or the input target puts a buffer on. -/
def nextQueue (worker : Worker cfg.buffers) : Option Side := worker.next.orElse fun _ => cfg.zero

/-- What a target does to a worker that it has dequeued. -/
def hand (s : State cfg) (side : Side) (w : Fin (cfg.workers side)) (b : Fin cfg.buffers)
    (stage : Stage) : State cfg :=
  let worker := s.worker side w
  match stage with
  | .fill => s.setWorker side w { worker with bufhdrp := some b }
  | .release => s.setWorker side w { worker with released := true }
  | .next => s.setWorker side w { worker with next := some side.next }
  | .broadcast => s.setWorker side w worker.broadcast

/-- The target sets the flag and wakes the worker up, which finds that it is not released. -/
def terminateWorker (s : State cfg) (side : Side) (w : Fin (cfg.workers side)) : State cfg :=
  s.setWorker side w { (s.worker side w).broadcast with terminate := true }

/-- The next step of `worker_thread_main`. -/
def workerStep (s : State cfg) (side : Side) (w : Fin (cfg.workers side)) : Option (State cfg) :=
  let worker := s.worker side w
  match worker.phase with
  | .start =>
    some ((s.setIdle side (s.idle side ++ [w])).setWorker side w { worker with phase := .test })
  | .test =>
    if worker.released then
      some (s.setWorker side w { worker with
        released := false
        phase := if worker.terminate then .terminated else .io })
    else some (s.setWorker side w { worker with phase := .drowsy })
  | .drowsy => some (s.setWorker side w { worker with phase := .asleep })
  | .io =>
    match worker.bufhdrp with
    | none => none
    | some b =>
      let header := s.header b
      let s := s.setWorker side w { worker with phase := .put }
      match side with
      | .input => some (s.setHeader b { header with content := header.range })
      | .output => some { s with written := s.written ++ [⟨header.range, header.content⟩] }
  | .put =>
    match worker.bufhdrp with
    | none => none
    | some b =>
      some ((s.setWorker side w { worker with phase := .start }).bhEnqueue b (nextQueue worker))
  | .asleep | .terminated => none

end State

/-- Behind a stage of the hand-over. -/
def Stage.after : Stage → Option Stage
  | .fill => some .release
  | .release => some .next
  | .next => some .broadcast
  | .broadcast => none

/-- The next step of `target_input`. -/
def inputStep (s : State cfg) : Option (State cfg) :=
  match s.input with
  | .getWorker =>
    if s.ops * cfg.transferSize < cfg.fileSize then
      match s.idle .input with
      | [] => none
      | w :: rest => some { s.setIdle .input rest with input := .getBuffer w }
    else some { s with input := .collectWorkers (cfg.workers .input) none }
  | .getBuffer w =>
    match s.queue .input with
    | [] => none
    | b :: rest => some { s.setQueue .input rest with input := .hand w b .fill }
  | .hand w b stage =>
    let next :=
      match stage.after with
      | some stage => .hand w b stage
      | none => .getWorker
    match stage with
    | .fill =>
      some { (s.setHeader b { s.header b with range := cfg.range s.ops }).hand .input w b .fill with
        input := next
        ops := s.ops + 1 }
    | .release | .next | .broadcast => some { s.hand .input w b stage with input := next }
  | .collectWorkers left last =>
    match left, s.idle .input with
    | 0, _ => some { s with input := .collectBuffers cfg.buffers last none }
    | _ + 1, [] => none
    | left + 1, w :: rest =>
      some { (s.setIdle .input rest).terminateWorker .input w with
        input := .collectWorkers left (some w) }
  | .collectBuffers left last buffer =>
    match left, s.queue .input with
    | 0, _ =>
      match last, buffer with
      | some w, some b =>
        let s := s.setHeader b { s.header b with eof := true }
        match (s.worker .input w).bufhdrp with
        | some b' =>
          some { s.bhEnqueue b' (State.nextQueue (s.worker .input w)) with input := .finished }
        | none => some { s with input := .crashed }
      | _, _ => none
    | _ + 1, [] => none
    | left + 1, b :: rest =>
      some { s.setQueue .input rest with input := .collectBuffers left last (some b) }
  | .finished | .crashed => none

/-- The next step of `target_output`. -/
def outputStep (s : State cfg) : Option (State cfg) :=
  match s.output with
  | .getBuffer =>
    match s.queue .output with
    | [] => none
    | b :: rest =>
      let s := s.setQueue .output rest
      if (s.header b).eof then some { s with output := .terminate (cfg.workers .output) }
      else some { s with output := .getWorker b }
  | .getWorker b =>
    match s.idle .output with
    | [] => none
    | w :: rest => some { s.setIdle .output rest with output := .hand w b .fill }
  | .hand w b stage =>
    let next :=
      match stage.after with
      | some stage => .hand w b stage
      | none => .getBuffer
    some { s.hand .output w b stage with output := next }
  | .terminate left =>
    match left, s.idle .output with
    | 0, _ => some { s with output := .done }
    | _ + 1, [] => none
    | left + 1, w :: rest =>
      some { (s.setIdle .output rest).terminateWorker .output w with
        output := .terminate left }
  | .done => none

/-- A step of one thread; after a crash there is none. -/
def step (s : State cfg) (a : Action cfg) : Option (State cfg) :=
  if s.input = .crashed then none
  else
    match a with
    | .input => inputStep s
    | .output => outputStep s
    | .worker side w => s.workerStep side w

/-- The steps, each with what it needs. -/
inductive Step (s : State cfg) : Action cfg → State cfg → Prop where
  | takeWorker (w : Fin (cfg.workers .input)) (rest : List (Fin (cfg.workers .input)))
      (hinput : s.input = .getWorker) (hops : s.ops * cfg.transferSize < cfg.fileSize)
      (hidle : s.idle .input = w :: rest) :
      Step s .input { s.setIdle .input rest with input := .getBuffer w }
  | scheduled (hinput : s.input = .getWorker) (hops : cfg.fileSize ≤ s.ops * cfg.transferSize) :
      Step s .input { s with input := .collectWorkers (cfg.workers .input) none }
  | takeBuffer (w : Fin (cfg.workers .input)) (b : Fin cfg.buffers)
      (rest : List (Fin cfg.buffers)) (hinput : s.input = .getBuffer w)
      (hqueue : s.queue .input = b :: rest) :
      Step s .input { s.setQueue .input rest with input := .hand w b .fill }
  | fill (w : Fin (cfg.workers .input)) (b : Fin cfg.buffers)
      (hinput : s.input = .hand w b .fill) :
      Step s .input
        { (s.setHeader b { s.header b with range := cfg.range s.ops }).hand .input w b .fill with
          input := .hand w b .release
          ops := s.ops + 1 }
  | handInput (w : Fin (cfg.workers .input)) (b : Fin cfg.buffers) (stage after : Stage)
      (hinput : s.input = .hand w b stage) (hfill : stage ≠ .fill)
      (hafter : stage.after = some after) :
      Step s .input { s.hand .input w b stage with input := .hand w b after }
  | handedInput (w : Fin (cfg.workers .input)) (b : Fin cfg.buffers)
      (hinput : s.input = .hand w b .broadcast) :
      Step s .input { s.hand .input w b .broadcast with input := .getWorker }
  | collectWorker (left : Nat) (last : Option (Fin (cfg.workers .input)))
      (w : Fin (cfg.workers .input)) (rest : List (Fin (cfg.workers .input)))
      (hinput : s.input = .collectWorkers (left + 1) last) (hidle : s.idle .input = w :: rest) :
      Step s .input { (s.setIdle .input rest).terminateWorker .input w with
        input := .collectWorkers left (some w) }
  | workersCollected (last : Option (Fin (cfg.workers .input)))
      (hinput : s.input = .collectWorkers 0 last) :
      Step s .input { s with input := .collectBuffers cfg.buffers last none }
  | collectBuffer (left : Nat) (last : Option (Fin (cfg.workers .input)))
      (buffer : Option (Fin cfg.buffers)) (b : Fin cfg.buffers) (rest : List (Fin cfg.buffers))
      (hinput : s.input = .collectBuffers (left + 1) last buffer)
      (hqueue : s.queue .input = b :: rest) :
      Step s .input { s.setQueue .input rest with input := .collectBuffers left last (some b) }
  | mark (w : Fin (cfg.workers .input)) (b b' : Fin cfg.buffers)
      (hinput : s.input = .collectBuffers 0 (some w) (some b))
      (hbufhdrp : (s.worker .input w).bufhdrp = some b') :
      Step s .input { (s.setHeader b { s.header b with eof := true }).bhEnqueue b'
        (State.nextQueue (s.worker .input w)) with input := .finished }
  | crash (w : Fin (cfg.workers .input)) (b : Fin cfg.buffers)
      (hinput : s.input = .collectBuffers 0 (some w) (some b))
      (hbufhdrp : (s.worker .input w).bufhdrp = none) :
      Step s .input { s.setHeader b { s.header b with eof := true } with input := .crashed }
  | takeEnd (b : Fin cfg.buffers) (rest : List (Fin cfg.buffers))
      (houtput : s.output = .getBuffer) (hqueue : s.queue .output = b :: rest)
      (heof : (s.header b).eof = true) :
      Step s .output
        { s.setQueue .output rest with output := .terminate (cfg.workers .output) }
  | takeFilled (b : Fin cfg.buffers) (rest : List (Fin cfg.buffers))
      (houtput : s.output = .getBuffer) (hqueue : s.queue .output = b :: rest)
      (heof : (s.header b).eof = false) :
      Step s .output { s.setQueue .output rest with output := .getWorker b }
  | takeWriter (b : Fin cfg.buffers) (w : Fin (cfg.workers .output))
      (rest : List (Fin (cfg.workers .output))) (houtput : s.output = .getWorker b)
      (hidle : s.idle .output = w :: rest) :
      Step s .output { s.setIdle .output rest with output := .hand w b .fill }
  | handOutput (w : Fin (cfg.workers .output)) (b : Fin cfg.buffers) (stage after : Stage)
      (houtput : s.output = .hand w b stage) (hafter : stage.after = some after) :
      Step s .output { s.hand .output w b stage with output := .hand w b after }
  | handedOutput (w : Fin (cfg.workers .output)) (b : Fin cfg.buffers)
      (houtput : s.output = .hand w b .broadcast) :
      Step s .output { s.hand .output w b .broadcast with output := .getBuffer }
  | terminate (left : Nat) (w : Fin (cfg.workers .output))
      (rest : List (Fin (cfg.workers .output))) (houtput : s.output = .terminate (left + 1))
      (hidle : s.idle .output = w :: rest) :
      Step s .output { (s.setIdle .output rest).terminateWorker .output w with
        output := .terminate left }
  | finish (houtput : s.output = .terminate 0) : Step s .output { s with output := .done }
  | enqueue (side : Side) (w : Fin (cfg.workers side))
      (hphase : (s.worker side w).phase = .start) :
      Step s (.worker side w) ((s.setIdle side (s.idle side ++ [w])).setWorker side w
        { s.worker side w with phase := .test })
  | wake (side : Side) (w : Fin (cfg.workers side)) (hphase : (s.worker side w).phase = .test)
      (hreleased : (s.worker side w).released = true) :
      Step s (.worker side w) (s.setWorker side w { s.worker side w with
        released := false
        phase := if (s.worker side w).terminate then .terminated else .io })
  | doze (side : Side) (w : Fin (cfg.workers side)) (hphase : (s.worker side w).phase = .test)
      (hreleased : (s.worker side w).released = false) :
      Step s (.worker side w) (s.setWorker side w { s.worker side w with phase := .drowsy })
  | sleep (side : Side) (w : Fin (cfg.workers side))
      (hphase : (s.worker side w).phase = .drowsy) :
      Step s (.worker side w) (s.setWorker side w { s.worker side w with phase := .asleep })
  | read (w : Fin (cfg.workers .input)) (b : Fin cfg.buffers)
      (hphase : (s.worker .input w).phase = .io)
      (hbufhdrp : (s.worker .input w).bufhdrp = some b) :
      Step s (.worker .input w)
        ((s.setWorker .input w { s.worker .input w with phase := .put }).setHeader b
          { s.header b with content := (s.header b).range })
  | write (w : Fin (cfg.workers .output)) (b : Fin cfg.buffers)
      (hphase : (s.worker .output w).phase = .io)
      (hbufhdrp : (s.worker .output w).bufhdrp = some b) :
      Step s (.worker .output w)
        { s.setWorker .output w { s.worker .output w with phase := .put } with
          written := s.written ++ [⟨(s.header b).range, (s.header b).content⟩] }
  | put (side : Side) (w : Fin (cfg.workers side)) (b : Fin cfg.buffers)
      (hphase : (s.worker side w).phase = .put)
      (hbufhdrp : (s.worker side w).bufhdrp = some b) :
      Step s (.worker side w)
        ((s.setWorker side w { s.worker side w with phase := .start }).bhEnqueue b
          (State.nextQueue (s.worker side w)))

theorem Step.of_inputStep {s s' : State cfg} (h : inputStep s = some s') : Step s .input s' := by
  rw [inputStep] at h
  split at h
  · next hinput =>
    split at h
    · next hops =>
      split at h
      · cases h
      · next w rest hidle =>
        cases h
        exact .takeWorker w rest hinput hops hidle
    · next hops =>
      cases h
      exact .scheduled hinput (Nat.le_of_not_lt hops)
  · next w hinput =>
    split at h
    · cases h
    · next b rest hqueue =>
      cases h
      exact .takeBuffer w b rest hinput hqueue
  · next w b stage hinput =>
    cases stage with
    | fill =>
      cases h
      exact .fill w b hinput
    | release =>
      cases h
      exact .handInput w b .release .next hinput (by simp) rfl
    | next =>
      cases h
      exact .handInput w b .next .broadcast hinput (by simp) rfl
    | broadcast =>
      cases h
      exact .handedInput w b hinput
  · next left last hinput =>
    split at h
    · cases h
      exact .workersCollected last hinput
    · cases h
    · next left w rest hidle =>
      cases h
      exact .collectWorker left last w rest hinput hidle
  · next left last buffer hinput =>
    split at h
    · split at h
      · next w b =>
        dsimp only at h
        split at h
        · next b' hbufhdrp =>
          cases h
          exact .mark w b b' hinput hbufhdrp
        · next hbufhdrp =>
          cases h
          exact .crash w b hinput hbufhdrp
      · cases h
    · cases h
    · next left b rest hqueue =>
      cases h
      exact .collectBuffer left last buffer b rest hinput hqueue
  · cases h
  · cases h

theorem Step.of_outputStep {s s' : State cfg} (h : outputStep s = some s') :
    Step s .output s' := by
  rw [outputStep] at h
  split at h
  · next houtput =>
    split at h
    · cases h
    · next b rest hqueue =>
      dsimp only at h
      split at h
      · next heof =>
        cases h
        exact .takeEnd b rest houtput hqueue heof
      · next heof =>
        cases h
        exact .takeFilled b rest houtput hqueue (Bool.eq_false_iff.mpr heof)
  · next b houtput =>
    split at h
    · cases h
    · next w rest hidle =>
      cases h
      exact .takeWriter b w rest houtput hidle
  · next w b stage houtput =>
    cases stage with
    | fill =>
      cases h
      exact .handOutput w b .fill .release houtput rfl
    | release =>
      cases h
      exact .handOutput w b .release .next houtput rfl
    | next =>
      cases h
      exact .handOutput w b .next .broadcast houtput rfl
    | broadcast =>
      cases h
      exact .handedOutput w b houtput
  · next left houtput =>
    split at h
    · cases h
      exact .finish houtput
    · cases h
    · next left w rest hidle =>
      cases h
      exact .terminate left w rest houtput hidle
  · cases h

theorem Step.of_workerStep {s s' : State cfg} {side : Side} {w : Fin (cfg.workers side)}
    (h : s.workerStep side w = some s') : Step s (.worker side w) s' := by
  rw [State.workerStep] at h
  dsimp only at h
  split at h
  · next hphase =>
    cases h
    exact .enqueue side w hphase
  · next hphase =>
    split at h
    · next hreleased =>
      cases h
      exact .wake side w hphase hreleased
    · next hreleased =>
      cases h
      exact .doze side w hphase (Bool.eq_false_iff.mpr hreleased)
  · next hphase =>
    cases h
    exact .sleep side w hphase
  · next hphase =>
    split at h
    · cases h
    · next b hbufhdrp =>
      cases side with
      | input =>
        cases h
        exact .read w b hphase hbufhdrp
      | output =>
        cases h
        exact .write w b hphase hbufhdrp
  · next hphase =>
    split at h
    · cases h
    · next b hbufhdrp =>
      cases h
      exact .put side w b hphase hbufhdrp
  · cases h
  · cases h

theorem Step.of_eq_some {s s' : State cfg} {a : Action cfg} (h : step s a = some s') :
    Step s a s' := by
  unfold step at h
  split at h
  · cases h
  · cases a with
    | input => exact .of_inputStep h
    | output => exact .of_outputStep h
    | worker side w => exact .of_workerStep h

/-- The states that a run can come to. -/
def Reachable (s : State cfg) : Prop := Transition.Reach step Transition.anyStep (init cfg) s

/-- Every range has been written to its place with its own data. -/
def Copied (s : State cfg) : Prop :=
  ∀ op, op < cfg.ops → ⟨cfg.range op, cfg.range op⟩ ∈ s.written

/-- The output target waits for a buffer that does not come, or the input target had none to
send. -/
def EndMissed (s : State cfg) : Prop :=
  s.input = .crashed ∨ s.input = .finished ∧ s.output = .getBuffer ∧ s.queue .output = []

/-- No range is written twice, all of them can be written from wherever a run has come to, and
the output target is told about the end. -/
def Copies (cfg : Config) : Prop :=
  (∀ s : State cfg, Reachable s → (s.written.map Write.range).Nodup) ∧
  (∀ s : State cfg, Reachable s →
    ∃ s', Transition.Reach step Transition.anyStep s s' ∧ Copied s') ∧
  ∀ s : State cfg, Reachable s → ¬ EndMissed s

end Xdd.Bx
