import Xdd.Bx.LostWakeUp
import Xdd.Library.Account

/-!
# Where the buffers and the workers of `bx` are

A buffer goes round: from the queue of the input target to that target, to a worker that reads,
to the queue of the output target, to that target, to a worker that writes, and back. Every step
takes at most one buffer from one place to another. A weight of the places then gives a weight
of every buffer in every state, and a step changes it by the weights of the two places.

A worker is on the queue of its target, or its target is about to release it, or it is at work,
or it has been told to terminate.
-/

namespace Xdd.Bx

variable {cfg : Config} {s s' : State cfg}

instance : Fintype Side := ⟨{.input, .output}, fun side => by cases side <;> decide⟩

/-! ## Workers -/

/-- The target is about to release the worker. -/
def Input.claims {buffers workers : Nat} (w : Fin workers) : Input buffers workers → Nat
  | .getBuffer w' | .hand w' _ .fill | .hand w' _ .release => if w' = w then 1 else 0
  | _ => 0

def Output.claims {buffers workers : Nat} (w : Fin workers) : Output buffers workers → Nat
  | .hand w' _ .fill | .hand w' _ .release => if w' = w then 1 else 0
  | _ => 0

/-- A worker that waits for a target is at none of these. -/
def WorkerPhase.busy : WorkerPhase → Nat
  | .start | .io | .put | .terminated => 1
  | .test | .drowsy | .asleep => 0

/-- How often the worker is at work or has been told to be. -/
def Worker.busy {buffers : Nat} (worker : Worker buffers) : Nat :=
  worker.phase.busy + (if worker.released then 1 else 0) + if worker.terminate then 1 else 0

def State.claims (s : State cfg) : (side : Side) → Fin (cfg.workers side) → Nat
  | .input, w => s.input.claims w
  | .output, w => s.output.claims w

/-- In how many places a worker is. -/
def State.standing (s : State cfg) (side : Side) (w : Fin (cfg.workers side)) : Nat :=
  (s.idle side).count w + s.claims side w + (s.worker side w).busy

@[simp] theorem Worker.busy_broadcast {buffers : Nat} (worker : Worker buffers) :
    worker.broadcast.busy = worker.busy := by
  by_cases h : worker.phase = .asleep <;> simp [Worker.broadcast, Worker.busy, h, WorkerPhase.busy]

/-! ## Buffers -/

/-- Where a buffer can be. -/
inductive Place where
  | queue (side : Side)
  /-- with the input target, not filled in yet -/
  | unfilled
  /-- with the input target, filled in -/
  | filled
  /-- with the output target -/
  | taken
  /-- with a worker that is about to read or to write -/
  | before (side : Side)
  /-- with a worker that has read or written -/
  | after (side : Side)
deriving DecidableEq, Repr

variable (f : Place → Nat) (b : Fin cfg.buffers)

def Input.weight {buffers workers : Nat} (f : Place → Nat) (b : Fin buffers) :
    Input buffers workers → Nat
  | .hand _ b' .fill => if b' = b then f .unfilled else 0
  | .hand _ b' .release => if b' = b then f .filled else 0
  | _ => 0

def Output.weight {buffers workers : Nat} (f : Place → Nat) (b : Fin buffers) :
    Output buffers workers → Nat
  | .getWorker b' | .hand _ b' .fill | .hand _ b' .release => if b' = b then f .taken else 0
  | _ => 0

/-- The buffer of a worker that has not been released, or has passed it on, is not in its
hands. -/
def Worker.weight {buffers : Nat} (f : Place → Nat) (side : Side) (b : Fin buffers)
    (worker : Worker buffers) : Nat :=
  if worker.bufhdrp = some b then
    if worker.released ∨ worker.phase = .io then f (.before side)
    else if worker.phase = .put then f (.after side)
    else 0
  else 0

def queueWeight {buffers : Nat} (f : Place → Nat) (b : Fin buffers)
    (queue : Side → List (Fin buffers)) : Nat :=
  ∑ side, (queue side).count b * f (.queue side)

def workersWeight (worker : (side : Side) → Fin (cfg.workers side) → Worker cfg.buffers) : Nat :=
  ∑ side, ∑ w, (worker side w).weight f side b

/-- The weights of the places at which a buffer is. -/
def State.weight (s : State cfg) : Nat :=
  queueWeight f b s.queue + s.input.weight f b + s.output.weight f b + workersWeight f b s.worker

@[simp] theorem Worker.weight_broadcast {buffers : Nat} (f : Place → Nat) (b : Fin buffers)
    (side : Side) (worker : Worker buffers) :
    worker.broadcast.weight f side b = worker.weight f side b := by
  by_cases h : worker.phase = .asleep <;> simp [Worker.broadcast, Worker.weight, h]

/-- A worker that is not at work has no buffer. -/
theorem Worker.weight_of_not_busy {buffers : Nat} {worker : Worker buffers} (side : Side)
    (b : Fin buffers) (h : worker.busy = 0) : worker.weight f side b = 0 := by
  obtain ⟨hphase, hreleased, -⟩ :
      worker.phase.busy = 0 ∧ worker.released = false ∧ worker.terminate = false := by
    simpa [Worker.busy, and_assoc] using h
  cases hp : worker.phase <;> simp_all [Worker.weight, WorkerPhase.busy]

theorem queueWeight_update (queue : Side → List (Fin cfg.buffers)) (side : Side)
    (list : List (Fin cfg.buffers)) :
    queueWeight f b (Function.update queue side list) + (queue side).count b * f (.queue side) =
      queueWeight f b queue + list.count b * f (.queue side) :=
  Account.sum_update_add_dep queue side list fun side list => list.count b * f (.queue side)

theorem workersWeight_update
    (worker : (side : Side) → Fin (cfg.workers side) → Worker cfg.buffers) (side : Side)
    (w : Fin (cfg.workers side)) (new : Worker cfg.buffers) :
    workersWeight f b (Function.update worker side (Function.update (worker side) w new)) +
        (worker side w).weight f side b =
      workersWeight f b worker + new.weight f side b := by
  have hside := Account.sum_update_add_dep worker side (Function.update (worker side) w new)
    fun side workers => ∑ w, (workers w).weight f side b
  have hworker := Account.sum_update_add (worker side) w new fun worker => worker.weight f side b
  simp only [workersWeight]
  omega

/-! ## A worker is in one place -/

/-- One worker changes, and no worker is in more places than before. -/
theorem State.standing_le_of_worker (side : Side) (w : Fin (cfg.workers side))
    (new : Worker cfg.buffers)
    (hworker : s'.worker = Function.update s.worker side (Function.update (s.worker side) w new))
    (hsame : (s'.idle side).count w + s'.claims side w + new.busy ≤ s.standing side w)
    (hother : ∀ side' w', (⟨side', w'⟩ : (side : Side) × Fin (cfg.workers side)) ≠ ⟨side, w⟩ →
      (s'.idle side').count w' + s'.claims side' w' ≤
        (s.idle side').count w' + s.claims side' w')
    (side' : Side) (w' : Fin (cfg.workers side')) :
    s'.standing side' w' ≤ s.standing side' w' := by
  by_cases heq : (⟨side', w'⟩ : (side : Side) × Fin (cfg.workers side)) = ⟨side, w⟩
  · cases heq
    rw [standing, hworker]
    simpa using hsame
  · have hle := hother side' w' heq
    have hsame : s'.worker side' w' = s.worker side' w' := by
      rw [hworker]
      by_cases hside : side' = side
      · subst hside
        have hw : w' ≠ w := by
          rintro rfl
          exact heq rfl
        simp [hw]
      · simp [hside]
    rw [standing, standing, hsame]
    omega

/-- A worker changes and is no busier than before. -/
theorem State.standing_setWorker_le (side : Side) (w : Fin (cfg.workers side))
    (new : Worker cfg.buffers)
    (hworker : s'.worker = Function.update s.worker side (Function.update (s.worker side) w new))
    (hidle : s'.idle = s.idle) (hclaims : s'.claims = s.claims)
    (hbusy : new.busy ≤ (s.worker side w).busy) (side' : Side) (w' : Fin (cfg.workers side')) :
    s'.standing side' w' ≤ s.standing side' w' := by
  refine State.standing_le_of_worker side w new hworker ?_ ?_ side' w'
  · rw [hidle, hclaims, standing]
    omega
  · intro side'' w'' _
    rw [hidle, hclaims]

@[simp] theorem State.claims_bhEnqueue (b : Fin cfg.buffers) (dest : Option Side) :
    (s.bhEnqueue b dest).claims = s.claims := by
  obtain ⟨-, -, -, -, -, hinput, houtput⟩ := State.bhEnqueue_frame (s := s) b dest
  funext side w
  cases side with
  | input => exact congrArg (Input.claims w) hinput
  | output => exact congrArg (Output.claims w) houtput

theorem Worker.busy_terminate_le {buffers : Nat} (worker : Worker buffers) :
    ({ worker.broadcast with terminate := true } : Worker buffers).busy ≤ worker.busy + 1 := by
  by_cases h : worker.phase = .asleep <;>
    simp [Worker.broadcast, Worker.busy, h, WorkerPhase.busy]

theorem Step.standing_le_input (h : Step s .input s') (side : Side)
    (w : Fin (cfg.workers side)) : s'.standing side w ≤ s.standing side w := by
  cases h with
  | takeWorker w' rest hinput hops hidle =>
    cases side <;>
      simp [State.standing, State.claims, State.setIdle, hinput, hidle, Input.claims,
        List.count_cons]
  | scheduled hinput hops =>
    cases side <;> simp [State.standing, State.claims, hinput, Input.claims]
  | takeBuffer w' b rest hinput hqueue =>
    cases side <;> simp [State.standing, State.claims, State.setQueue, hinput, Input.claims]
  | fill w' b hinput =>
    refine State.standing_le_of_worker .input w' _ rfl ?_ ?_ side w
    · simp [State.standing, State.claims, hinput, Input.claims, Worker.busy, State.setHeader]
    · rintro (_ | _) v hv
      · simp [State.claims, hinput, Input.claims, State.setHeader]
      · rfl
  | handInput w' b stage after hinput hfill hafter =>
    cases stage with
    | fill => exact absurd rfl hfill
    | release =>
      cases hafter
      refine State.standing_le_of_worker .input w' _ rfl ?_ ?_ side w
      · simp [State.standing, State.claims, hinput, Input.claims, Worker.busy]
        split <;> omega
      · rintro (_ | _) v hv
        · simp [State.claims, hinput, Input.claims]
        · rfl
    | next =>
      cases hafter
      refine State.standing_le_of_worker .input w' _ rfl ?_ ?_ side w
      · simp [State.standing, State.claims, hinput, Input.claims, Worker.busy]
      · rintro (_ | _) v hv
        · simp [State.claims, hinput, Input.claims]
        · rfl
    | broadcast => cases hafter
  | handedInput w' b hinput =>
    refine State.standing_le_of_worker .input w' _ rfl ?_ ?_ side w
    · simp [State.standing, State.claims, hinput, Input.claims]
    · rintro (_ | _) v hv
      · simp [State.claims, hinput, Input.claims]
      · rfl
  | collectWorker left last w' rest hinput hidle =>
    refine State.standing_le_of_worker .input w' _ rfl ?_ ?_ side w
    · have hbusy := (s.worker .input w').busy_terminate_le
      dsimp only at hbusy
      simp [State.standing, State.claims, hinput, hidle, Input.claims, State.terminateWorker,
        State.setIdle, State.setWorker]
      omega
    · rintro (_ | _) v hv
      · simp [State.claims, hinput, hidle, Input.claims, State.terminateWorker, State.setIdle,
          State.setWorker, List.count_cons]
      · rfl
  | workersCollected last hinput =>
    cases side <;> simp [State.standing, State.claims, hinput, Input.claims]
  | collectBuffer left last buffer b rest hinput hqueue =>
    cases side <;> simp [State.standing, State.claims, hinput, Input.claims, State.setQueue]
  | mark w' b b' hinput hbufhdrp =>
    obtain ⟨hworker, hidle, -, -, -, -, houtput⟩ :=
      State.bhEnqueue_frame (s := s.setHeader b { s.header b with eof := true }) b'
        (State.nextQueue (s.worker .input w'))
    cases side <;> simp [State.standing, State.claims, hinput, Input.claims, State.setHeader]
  | crash w' b hinput hbufhdrp =>
    cases side <;> simp [State.standing, State.claims, hinput, Input.claims, State.setHeader]

theorem Step.standing_le_output (h : Step s .output s') (side : Side)
    (w : Fin (cfg.workers side)) : s'.standing side w ≤ s.standing side w := by
  cases h with
  | takeEnd b rest houtput hqueue heof =>
    cases side <;> simp [State.standing, State.claims, houtput, Output.claims, State.setQueue]
  | takeFilled b rest houtput hqueue heof =>
    cases side <;> simp [State.standing, State.claims, houtput, Output.claims, State.setQueue]
  | takeWriter b w' rest houtput hidle =>
    cases side <;>
      simp [State.standing, State.claims, State.setIdle, houtput, hidle, Output.claims,
        List.count_cons]
  | handOutput w' b stage after houtput hafter =>
    cases stage with
    | fill =>
      cases hafter
      refine State.standing_le_of_worker .output w' _ rfl ?_ ?_ side w
      · simp [State.standing, State.claims, houtput, Output.claims, Worker.busy]
      · rintro (_ | _) v hv
        · rfl
        · simp [State.claims, houtput, Output.claims]
    | release =>
      cases hafter
      refine State.standing_le_of_worker .output w' _ rfl ?_ ?_ side w
      · simp [State.standing, State.claims, houtput, Output.claims, Worker.busy]
        split <;> omega
      · rintro (_ | _) v hv
        · rfl
        · simp [State.claims, houtput, Output.claims]
    | next =>
      cases hafter
      refine State.standing_le_of_worker .output w' _ rfl ?_ ?_ side w
      · simp [State.standing, State.claims, houtput, Output.claims, Worker.busy]
      · rintro (_ | _) v hv
        · rfl
        · simp [State.claims, houtput, Output.claims]
    | broadcast => cases hafter
  | handedOutput w' b houtput =>
    refine State.standing_le_of_worker .output w' _ rfl ?_ ?_ side w
    · simp [State.standing, State.claims, houtput, Output.claims]
    · rintro (_ | _) v hv
      · rfl
      · simp [State.claims, houtput, Output.claims]
  | terminate left w' rest houtput hidle =>
    refine State.standing_le_of_worker .output w' _ rfl ?_ ?_ side w
    · have hbusy := (s.worker .output w').busy_terminate_le
      dsimp only at hbusy
      simp [State.standing, State.claims, houtput, hidle, Output.claims, State.terminateWorker,
        State.setIdle, State.setWorker]
      omega
    · rintro (_ | _) v hv
      · rfl
      · simp [State.claims, houtput, hidle, Output.claims, State.terminateWorker, State.setIdle,
          State.setWorker, List.count_cons]
  | finish houtput =>
    cases side <;> simp [State.standing, State.claims, houtput, Output.claims]

theorem Step.standing_le_worker {side' : Side} {w' : Fin (cfg.workers side')}
    (h : Step s (.worker side' w') s') (side : Side) (w : Fin (cfg.workers side)) :
    s'.standing side w ≤ s.standing side w := by
  cases h with
  | enqueue _ _ hphase =>
    refine State.standing_le_of_worker side' w' _ rfl ?_ ?_ side w
    · have hclaims : ((s.setIdle side' (s.idle side' ++ [w'])).setWorker side' w'
          { s.worker side' w' with phase := .test }).claims = s.claims := rfl
      rw [hclaims]
      simp [State.standing, Worker.busy, hphase, WorkerPhase.busy, State.setIdle,
        State.setWorker]
      omega
    · intro side'' w'' hne
      refine Nat.add_le_add_right ?_ _
      by_cases hside : side'' = side'
      · subst hside
        have hw : w' ≠ w'' := by
          rintro rfl
          exact hne rfl
        simp [State.setIdle, State.setWorker, List.count_append, hw]
      · simp [State.setIdle, State.setWorker, hside]
  | wake _ _ hphase hreleased =>
    refine State.standing_setWorker_le side' w' _ (State.setWorker_worker ..) rfl rfl ?_ side w
    cases hterminate : (s.worker side' w').terminate <;>
      simp [Worker.busy, hphase, hreleased, hterminate, WorkerPhase.busy]
  | doze _ _ hphase hreleased =>
    refine State.standing_setWorker_le side' w' _ (State.setWorker_worker ..) rfl rfl ?_ side w
    simp [Worker.busy, hphase, WorkerPhase.busy]
  | sleep _ _ hphase =>
    refine State.standing_setWorker_le side' w' _ (State.setWorker_worker ..) rfl rfl ?_ side w
    simp [Worker.busy, hphase, WorkerPhase.busy]
  | read w' b hphase hbufhdrp =>
    apply State.standing_setWorker_le .input w' { s.worker .input w' with phase := .put }
    · rfl
    · rfl
    · rfl
    · simp [Worker.busy, hphase, WorkerPhase.busy]
  | write w' b hphase hbufhdrp =>
    apply State.standing_setWorker_le .output w' { s.worker .output w' with phase := .put }
    · rfl
    · rfl
    · rfl
    · simp [Worker.busy, hphase, WorkerPhase.busy]
  | put _ _ b hphase hbufhdrp =>
    obtain ⟨hworker, hidle, -⟩ := State.bhEnqueue_frame
      (s := s.setWorker side' w' { s.worker side' w' with phase := .start }) b
      (State.nextQueue (s.worker side' w'))
    exact State.standing_setWorker_le side' w' { s.worker side' w' with phase := .start } hworker
      hidle (State.claims_bhEnqueue ..) (by simp [Worker.busy, hphase, WorkerPhase.busy])
      side w

/-- A step puts no worker into another place without taking it out of one. -/
theorem Step.standing_le {a : Action cfg} (h : Step s a s') (side : Side)
    (w : Fin (cfg.workers side)) : s'.standing side w ≤ s.standing side w := by
  cases a with
  | input => exact h.standing_le_input side w
  | output => exact h.standing_le_output side w
  | worker side' w' => exact h.standing_le_worker side w

/-! ## What a step does to the buffers -/

/-- A worker that is about to be released has the buffer it is handed. -/
structure Placed (s : State cfg) : Prop where
  standing : ∀ side w, s.standing side w ≤ 1
  input : ∀ w b, s.input = .hand w b .release → (s.worker .input w).bufhdrp = some b
  output : ∀ w b, s.output = .hand w b .release → (s.worker .output w).bufhdrp = some b

/-- The buffer is taken from one place to another; `none` is no place at all. -/
def Moves (s s' : State cfg) (b : Fin cfg.buffers) (p q : Option Place) : Prop :=
  ∀ f b', s'.weight f b' + (if b = b' then p.elim 0 f else 0) =
    s.weight f b' + if b = b' then q.elim 0 f else 0

/-- Every buffer stays where it is. -/
def Stays (s s' : State cfg) : Prop :=
  ∀ f b, s'.weight f b = s.weight f b

/-- The ranges, the data and the records are as before. -/
structure SameData (s s' : State cfg) : Prop where
  range : ∀ b, (s'.header b).range = (s.header b).range
  content : ∀ b, (s'.header b).content = (s.header b).content
  ops : s'.ops = s.ops
  written : s'.written = s.written

/-- The ways of a buffer on which nothing happens to it. -/
inductive Carry : Place → Option Place → Prop where
  | take : Carry (.queue .input) (some .unfilled)
  | release : Carry .filled (some (.before .input))
  | collect : Carry (.queue .input) none
  | takeFilled : Carry (.queue .output) (some .taken)
  | releaseWriter : Carry .taken (some (.before .output))

/-- A step of the pipeline as the buffers see it. -/
inductive Change (s : State cfg) : Action cfg → State cfg → Prop where
  | still (a : Action cfg) (s' : State cfg) (hstays : Stays s s') (hdata : SameData s s') :
      Change s a s'
  | carry (a : Action cfg) (s' : State cfg) (b : Fin cfg.buffers) (p : Place) (q : Option Place)
      (hcarry : Carry p q) (hmoves : Moves s s' b (some p) q) (hdata : SameData s s') :
      Change s a s'
  | takeEnd (s' : State cfg) (b : Fin cfg.buffers) (heof : (s.header b).eof = true)
      (hmoves : Moves s s' b (some (.queue .output)) none) (hdata : SameData s s') :
      Change s .output s'
  | fill (s' : State cfg) (w : Fin (cfg.workers .input)) (b : Fin cfg.buffers)
      (hinput : s.input = .hand w b .fill)
      (hmoves : Moves s s' b (some .unfilled) (some .filled))
      (hheader : s'.header = Function.update s.header b
        { s.header b with range := cfg.range s.ops })
      (hops : s'.ops = s.ops + 1) (hwritten : s'.written = s.written) : Change s .input s'
  | read (s' : State cfg) (w : Fin (cfg.workers .input)) (b : Fin cfg.buffers)
      (hmoves : Moves s s' b (some (.before .input)) (some (.after .input)))
      (hheader : s'.header = Function.update s.header b
        { s.header b with content := (s.header b).range })
      (hops : s'.ops = s.ops) (hwritten : s'.written = s.written) :
      Change s (.worker .input w) s'
  | write (s' : State cfg) (w : Fin (cfg.workers .output)) (b : Fin cfg.buffers)
      (hmoves : Moves s s' b (some (.before .output)) (some (.after .output)))
      (hheader : s'.header = s.header) (hops : s'.ops = s.ops)
      (hwritten : s'.written = s.written ++ [⟨(s.header b).range, (s.header b).content⟩]) :
      Change s (.worker .output w) s'
  | put (s' : State cfg) (side : Side) (w : Fin (cfg.workers side)) (b : Fin cfg.buffers)
      (hphase : (s.worker side w).phase = .put)
      (hmoves : Moves s s' b (some (.after side))
        ((State.nextQueue (s.worker side w)).map .queue)) (hdata : SameData s s') :
      Change s (.worker side w) s'
  | mark (s' : State cfg) (w : Fin (cfg.workers .input)) (b b' : Fin cfg.buffers)
      (hinput : s.input = .collectBuffers 0 (some w) (some b))
      (hinput' : s'.input = .finished) (hbufhdrp : (s.worker .input w).bufhdrp = some b')
      (hmoves : Moves s s' b' none ((State.nextQueue (s.worker .input w)).map .queue))
      (hdata : SameData s s') : Change s .input s'

/-- A worker changes, and the targets and the queues do not. -/
theorem Moves.of_worker (side : Side) (w : Fin (cfg.workers side)) (new : Worker cfg.buffers)
    {b : Fin cfg.buffers} {p q : Option Place}
    (hworker : s'.worker = Function.update s.worker side (Function.update (s.worker side) w new))
    (hplaces : ∀ f b', queueWeight f b' s'.queue + s'.input.weight f b' + s'.output.weight f b' +
      (new.weight f side b' + if b = b' then p.elim 0 f else 0) =
      queueWeight f b' s.queue + s.input.weight f b' + s.output.weight f b' +
        ((s.worker side w).weight f side b' + if b = b' then q.elim 0 f else 0)) :
    Moves s s' b p q := by
  intro f b'
  have hupdate := workersWeight_update f b' s.worker side w new
  have h := hplaces f b'
  rw [State.weight, State.weight, hworker]
  omega

theorem Stays.of_worker (side : Side) (w : Fin (cfg.workers side)) (new : Worker cfg.buffers)
    (hworker : s'.worker = Function.update s.worker side (Function.update (s.worker side) w new))
    (hplaces : ∀ f b, queueWeight f b s'.queue + s'.input.weight f b + s'.output.weight f b +
      new.weight f side b =
      queueWeight f b s.queue + s.input.weight f b + s.output.weight f b +
        (s.worker side w).weight f side b) : Stays s s' := by
  intro f b
  have hupdate := workersWeight_update f b s.worker side w new
  have h := hplaces f b
  rw [State.weight, State.weight, hworker]
  omega

/-- A queue and what a target has change. -/
theorem Moves.of_queue (side : Side) (list : List (Fin cfg.buffers)) {b : Fin cfg.buffers}
    {p q : Option Place} (hworker : s'.worker = s.worker)
    (hqueue : s'.queue = Function.update s.queue side list)
    (hplaces : ∀ f b', list.count b' * f (.queue side) + s'.input.weight f b' +
      s'.output.weight f b' + (if b = b' then p.elim 0 f else 0) =
      (s.queue side).count b' * f (.queue side) + s.input.weight f b' + s.output.weight f b' +
        if b = b' then q.elim 0 f else 0) :
    Moves s s' b p q := by
  intro f b'
  have hupdate := queueWeight_update f b' s.queue side list
  have h := hplaces f b'
  rw [State.weight, State.weight, hworker, hqueue]
  omega

/-- The first buffer of a queue is taken off, and the targets had and get none. -/
theorem Moves.of_dequeue (side : Side) {b : Fin cfg.buffers} {rest : List (Fin cfg.buffers)}
    (hworker : s'.worker = s.worker) (hqueue : s.queue side = b :: rest)
    (hqueue' : s'.queue = Function.update s.queue side rest)
    (hinput : ∀ f b', s'.input.weight f b' = s.input.weight f b')
    (houtput : ∀ f b', s'.output.weight f b' = s.output.weight f b') :
    Moves s s' b (some (.queue side)) none := by
  refine Moves.of_queue side rest hworker hqueue' ?_
  intro f b'
  rw [hinput, houtput, hqueue]
  by_cases hb : b = b' <;> simp [hb]
  ring

/-- A buffer is put on a queue, if that is a queue of one of the two targets. -/
theorem State.weight_bhEnqueue (b : Fin cfg.buffers) (dest : Option Side) (f : Place → Nat)
    (b' : Fin cfg.buffers) :
    (s.bhEnqueue b dest).weight f b' =
      s.weight f b' + if b = b' then (dest.map Place.queue).elim 0 f else 0 := by
  cases dest with
  | none => simp [bhEnqueue]
  | some side =>
    have hupdate := queueWeight_update f b' s.queue side (s.queue side ++ [b])
    have hweight : (s.bhEnqueue b (some side)).weight f b' =
        queueWeight f b' (Function.update s.queue side (s.queue side ++ [b])) +
          s.input.weight f b' + s.output.weight f b' + workersWeight f b' s.worker := rfl
    rw [hweight, weight]
    by_cases hb : b = b'
    · subst hb
      simp only [List.count_append, List.count_singleton_self, Nat.add_mul, Nat.one_mul] at hupdate
      simp only [Option.map_some, Option.elim_some, if_true]
      omega
    · simp only [List.count_append, List.count_singleton, beq_iff_eq, hb, if_false,
        Nat.add_zero] at hupdate
      simp only [hb, if_false]
      omega

theorem Moves.bhEnqueue {b : Fin cfg.buffers} {p : Option Place} (h : Moves s s' b p none)
    (dest : Option Side) : Moves s (s'.bhEnqueue b dest) b p (dest.map .queue) := by
  intro f b'
  have hmoves := h f b'
  rw [State.weight_bhEnqueue]
  simp only [Option.elim_none, ite_self] at hmoves
  omega

/-- A step that leaves the headers alone. -/
theorem SameData.of_header (hheader : s'.header = s.header) (hops : s'.ops = s.ops)
    (hwritten : s'.written = s.written) : SameData s s' where
  range := by simp [hheader]
  content := by simp [hheader]
  ops := hops
  written := hwritten

/-- The end-of-file flag is neither range nor data. -/
theorem SameData.of_eof (b : Fin cfg.buffers)
    (hheader : s'.header = Function.update s.header b { s.header b with eof := true })
    (hops : s'.ops = s.ops) (hwritten : s'.written = s.written) : SameData s s' where
  range := by
    intro b'
    by_cases hb : b' = b
    · subst hb
      simp [hheader]
    · simp [hheader, hb]
  content := by
    intro b'
    by_cases hb : b' = b
    · subst hb
      simp [hheader]
    · simp [hheader, hb]
  ops := hops
  written := hwritten

/-- A worker that is handed a buffer is not at work. -/
theorem Placed.busy_of_claims (h : Placed s) (side : Side) (w : Fin (cfg.workers side))
    (hclaims : s.claims side w = 1) : (s.worker side w).busy = 0 := by
  have hle := h.standing side w
  rw [State.standing, hclaims] at hle
  omega

/-- The release of a worker that has its buffer. -/
theorem Worker.weight_released {buffers : Nat} {worker : Worker buffers} {b : Fin buffers}
    (hbufhdrp : worker.bufhdrp = some b) (f : Place → Nat) (side : Side) (b' : Fin buffers) :
    ({ worker with released := true } : Worker buffers).weight f side b' =
      if b = b' then f (.before side) else 0 := by
  simp [Worker.weight, hbufhdrp]

theorem Step.change_input (hplaced : Placed s) (h : Step s .input s') : Change s .input s' := by
  cases h with
  | takeWorker w rest hinput hops hidle =>
    refine .still _ _ ?_ (.of_header rfl rfl rfl)
    intro f b
    simp [State.weight, hinput, Input.weight, State.setIdle]
  | scheduled hinput hops =>
    refine .still _ _ ?_ (.of_header rfl rfl rfl)
    intro f b
    simp [State.weight, hinput, Input.weight]
  | takeBuffer w b rest hinput hqueue =>
    refine .carry _ _ b _ _ .take ?_ (.of_header rfl rfl rfl)
    refine Moves.of_queue .input rest rfl rfl ?_
    intro f b'
    by_cases hb : b = b' <;> simp [hqueue, hinput, Input.weight, State.setQueue, hb]
    ring
  | fill w b hinput =>
    have hbusy := hplaced.busy_of_claims .input w
      (by simp [State.claims, hinput, Input.claims])
    refine .fill _ w b hinput ?_ rfl rfl rfl
    refine Moves.of_worker .input w { s.worker .input w with bufhdrp := some b } rfl ?_
    intro f b'
    have hnew : ({ s.worker .input w with bufhdrp := some b } : Worker cfg.buffers).weight f
        .input b' = 0 := Worker.weight_of_not_busy f .input b' hbusy
    rw [hnew, Worker.weight_of_not_busy f .input b' hbusy]
    by_cases hb : b = b' <;> simp [hinput, Input.weight, State.setHeader, hb]
    omega
  | handInput w b stage after hinput hfill hafter =>
    cases stage with
    | fill => exact absurd rfl hfill
    | release =>
      cases hafter
      have hbusy := hplaced.busy_of_claims .input w
        (by simp [State.claims, hinput, Input.claims])
      refine .carry _ _ b _ _ .release ?_ (.of_header (by simp) (by simp) (by simp))
      refine Moves.of_worker .input w { s.worker .input w with released := true } rfl ?_
      intro f b'
      rw [Worker.weight_of_not_busy f .input b' hbusy,
        Worker.weight_released (hplaced.input w b hinput)]
      by_cases hb : b = b' <;> simp [hinput, Input.weight, hb]
      omega
    | next =>
      cases hafter
      refine .still _ _ ?_ (.of_header (by simp) (by simp) (by simp))
      refine Stays.of_worker .input w { s.worker .input w with next := some Side.input.next } rfl ?_
      intro f b'
      simp [hinput, Input.weight, Worker.weight]
    | broadcast => cases hafter
  | handedInput w b hinput =>
    refine .still _ _ ?_ (.of_header (by simp) (by simp) (by simp))
    refine Stays.of_worker .input w (s.worker .input w).broadcast rfl ?_
    intro f b'
    simp [hinput, Input.weight]
  | collectWorker left last w rest hinput hidle =>
    refine .still _ _ ?_ (.of_header rfl rfl rfl)
    refine Stays.of_worker .input w { (s.worker .input w).broadcast with terminate := true } rfl ?_
    intro f b
    have hweight : ({ (s.worker .input w).broadcast with terminate := true } :
        Worker cfg.buffers).weight f .input b = (s.worker .input w).weight f .input b :=
      (s.worker .input w).weight_broadcast f b .input
    rw [hweight]
    simp [hinput, Input.weight, State.terminateWorker, State.setIdle, State.setWorker]
  | workersCollected last hinput =>
    refine .still _ _ ?_ (.of_header rfl rfl rfl)
    intro f b
    simp [State.weight, hinput, Input.weight]
  | collectBuffer left last buffer b rest hinput hqueue =>
    refine .carry _ _ b _ _ .collect ?_ (.of_header rfl rfl rfl)
    exact Moves.of_dequeue .input rfl hqueue rfl (by simp [hinput, Input.weight]) fun _ _ => rfl
  | mark w b b' hinput hbufhdrp =>
    obtain ⟨-, -, hheader, hops, hwritten, -, -⟩ :=
      State.bhEnqueue_frame (s := s.setHeader b { s.header b with eof := true }) b'
        (State.nextQueue (s.worker .input w))
    refine .mark _ w b b' hinput rfl hbufhdrp ?_ (.of_eof b hheader hops hwritten)
    intro f b''
    -- the flag and the place of the input target do not matter to the queue
    have hsame : { (s.setHeader b { s.header b with eof := true }).bhEnqueue b'
          (State.nextQueue (s.worker .input w)) with input := .finished } =
        { s.setHeader b { s.header b with eof := true } with input := .finished }.bhEnqueue b'
          (State.nextQueue (s.worker .input w)) := by
      cases State.nextQueue (s.worker .input w) <;> rfl
    rw [hsame, State.weight_bhEnqueue]
    simp [State.weight, hinput, Input.weight, State.setHeader]
  | crash w b hinput hbufhdrp =>
    refine .still _ _ ?_ (.of_eof b rfl rfl rfl)
    intro f b'
    simp [State.weight, hinput, Input.weight, State.setHeader]

theorem Step.change_output (hplaced : Placed s) (h : Step s .output s') : Change s .output s' := by
  cases h with
  | takeEnd b rest houtput hqueue heof =>
    refine .takeEnd _ b heof ?_ (.of_header rfl rfl rfl)
    exact Moves.of_dequeue .output rfl hqueue rfl (fun _ _ => rfl)
      (by simp [houtput, Output.weight])
  | takeFilled b rest houtput hqueue heof =>
    refine .carry _ _ b _ _ .takeFilled ?_ (.of_header rfl rfl rfl)
    refine Moves.of_queue .output rest rfl rfl ?_
    intro f b'
    by_cases hb : b = b' <;> simp [hqueue, houtput, Output.weight, State.setQueue, hb]
    ring
  | takeWriter b w rest houtput hidle =>
    refine .still _ _ ?_ (.of_header rfl rfl rfl)
    intro f b'
    simp [State.weight, houtput, Output.weight, State.setIdle]
  | handOutput w b stage after houtput hafter =>
    cases stage with
    | fill =>
      cases hafter
      have hbusy := hplaced.busy_of_claims .output w
        (by simp [State.claims, houtput, Output.claims])
      refine .still _ _ ?_ (.of_header (by simp) (by simp) (by simp))
      refine Stays.of_worker .output w { s.worker .output w with bufhdrp := some b } rfl ?_
      intro f b'
      have hnew : ({ s.worker .output w with bufhdrp := some b } : Worker cfg.buffers).weight f
          .output b' = 0 := Worker.weight_of_not_busy f .output b' hbusy
      rw [hnew, Worker.weight_of_not_busy f .output b' hbusy]
      simp [houtput, Output.weight]
    | release =>
      cases hafter
      have hbusy := hplaced.busy_of_claims .output w
        (by simp [State.claims, houtput, Output.claims])
      refine .carry _ _ b _ _ .releaseWriter ?_ (.of_header (by simp) (by simp) (by simp))
      refine Moves.of_worker .output w { s.worker .output w with released := true } rfl ?_
      intro f b'
      rw [Worker.weight_of_not_busy f .output b' hbusy,
        Worker.weight_released (hplaced.output w b houtput)]
      by_cases hb : b = b' <;> simp [houtput, Output.weight, hb]
      omega
    | next =>
      cases hafter
      refine .still _ _ ?_ (.of_header (by simp) (by simp) (by simp))
      refine Stays.of_worker .output w { s.worker .output w with next := some Side.output.next }
        rfl ?_
      intro f b'
      simp [houtput, Output.weight, Worker.weight]
    | broadcast => cases hafter
  | handedOutput w b houtput =>
    refine .still _ _ ?_ (.of_header (by simp) (by simp) (by simp))
    refine Stays.of_worker .output w (s.worker .output w).broadcast rfl ?_
    intro f b'
    simp [houtput, Output.weight]
  | terminate left w rest houtput hidle =>
    refine .still _ _ ?_ (.of_header rfl rfl rfl)
    refine Stays.of_worker .output w { (s.worker .output w).broadcast with terminate := true }
      rfl ?_
    intro f b
    have hweight : ({ (s.worker .output w).broadcast with terminate := true } :
        Worker cfg.buffers).weight f .output b = (s.worker .output w).weight f .output b :=
      (s.worker .output w).weight_broadcast f b .output
    rw [hweight]
    simp [houtput, Output.weight, State.terminateWorker, State.setIdle, State.setWorker]
  | finish houtput =>
    refine .still _ _ ?_ (.of_header rfl rfl rfl)
    intro f b
    simp [State.weight, houtput, Output.weight]

/-- A worker that reads, writes or passes its buffer on has not been released again. -/
theorem Placed.released_of_busy (h : Placed s) (side : Side) (w : Fin (cfg.workers side))
    (hphase : (s.worker side w).phase.busy = 1) : (s.worker side w).released = false := by
  have hle := h.standing side w
  rw [State.standing, Worker.busy, hphase] at hle
  cases hreleased : (s.worker side w).released with
  | false => rfl
  | true =>
    rw [hreleased] at hle
    simp at hle
    omega

/-- A worker that has been released has not been told to terminate. -/
theorem Placed.terminate_of_released (h : Placed s) {side : Side} {w : Fin (cfg.workers side)}
    (hreleased : (s.worker side w).released = true) : (s.worker side w).terminate = false := by
  have hle := h.standing side w
  rw [State.standing, Worker.busy, hreleased] at hle
  cases hterminate : (s.worker side w).terminate with
  | false => rfl
  | true =>
    rw [hterminate] at hle
    simp at hle
    omega

theorem Step.change_worker (hplaced : Placed s) {side : Side} {w : Fin (cfg.workers side)}
    (h : Step s (.worker side w) s') : Change s (.worker side w) s' := by
  cases h with
  | enqueue _ _ hphase =>
    have hreleased := hplaced.released_of_busy side w
      (by simp [hphase, WorkerPhase.busy])
    refine .still _ _ ?_ (.of_header rfl rfl rfl)
    refine Stays.of_worker side w { s.worker side w with phase := .test } rfl ?_
    intro f b
    simp [Worker.weight, hphase, hreleased, State.setIdle, State.setWorker]
  | wake _ _ hphase hreleased =>
    have hterminate := hplaced.terminate_of_released hreleased
    refine .still _ _ ?_ (.of_header rfl rfl rfl)
    refine Stays.of_worker side w _ rfl ?_
    intro f b
    simp [Worker.weight, hreleased, hterminate, State.setWorker]
  | doze _ _ hphase hreleased =>
    refine .still _ _ ?_ (.of_header rfl rfl rfl)
    refine Stays.of_worker side w { s.worker side w with phase := .drowsy } rfl ?_
    intro f b
    simp [Worker.weight, hphase, hreleased, State.setWorker]
  | sleep _ _ hphase =>
    refine .still _ _ ?_ (.of_header rfl rfl rfl)
    refine Stays.of_worker side w { s.worker side w with phase := .asleep } rfl ?_
    intro f b
    simp [Worker.weight, hphase, State.setWorker]
  | read w b hphase hbufhdrp =>
    have hreleased := hplaced.released_of_busy .input w
      (by simp [hphase, WorkerPhase.busy])
    refine .read _ w b ?_ rfl rfl rfl
    refine Moves.of_worker .input w { s.worker .input w with phase := .put } rfl ?_
    intro f b'
    by_cases hb : b = b' <;>
      simp [Worker.weight, hphase, hreleased, hbufhdrp, State.setWorker, State.setHeader, hb]
    exact Nat.add_comm _ _
  | write w b hphase hbufhdrp =>
    have hreleased := hplaced.released_of_busy .output w
      (by simp [hphase, WorkerPhase.busy])
    refine .write _ w b ?_ rfl rfl rfl
    refine Moves.of_worker .output w { s.worker .output w with phase := .put } rfl ?_
    intro f b'
    by_cases hb : b = b' <;>
      simp [Worker.weight, hphase, hreleased, hbufhdrp, State.setWorker, hb]
    exact Nat.add_comm _ _
  | put _ _ b hphase hbufhdrp =>
    have hreleased := hplaced.released_of_busy side w
      (by simp [hphase, WorkerPhase.busy])
    obtain ⟨-, -, hheader, hops, hwritten, -, -⟩ := State.bhEnqueue_frame
      (s := s.setWorker side w { s.worker side w with phase := .start }) b
      (State.nextQueue (s.worker side w))
    refine .put _ side w b hphase ?_ (.of_header hheader hops hwritten)
    refine Moves.bhEnqueue ?_ _
    refine Moves.of_worker side w { s.worker side w with phase := .start } rfl ?_
    intro f b'
    by_cases hb : b = b' <;>
      simp [Worker.weight, hphase, hreleased, hbufhdrp, State.setWorker, hb]

/-- Every step changes the places and the data of at most one buffer. -/
theorem Step.change (hplaced : Placed s) {a : Action cfg} (h : Step s a s') : Change s a s' := by
  cases a with
  | input => exact h.change_input hplaced
  | output => exact h.change_output hplaced
  | worker side w => exact h.change_worker hplaced

/-! ## The places in every state -/

/-- A worker does not change the buffer of any worker, nor where the targets are. -/
theorem Step.frame_worker {side : Side} {w : Fin (cfg.workers side)}
    (h : Step s (.worker side w) s') : s'.input = s.input ∧ s'.output = s.output ∧
      ∀ side' w', (s'.worker side' w').bufhdrp = (s.worker side' w').bufhdrp := by
  have hkeep (worker : Worker cfg.buffers) (hb : worker.bufhdrp = (s.worker side w).bufhdrp)
      (side' : Side) (w' : Fin (cfg.workers side')) :
      (Function.update s.worker side (Function.update (s.worker side) w worker) side'
        w').bufhdrp = (s.worker side' w').bufhdrp := by
    by_cases hside : side' = side
    · subst hside
      by_cases hw : w' = w
      · subst hw
        simpa using hb
      · simp [hw]
    · simp [hside]
  cases h with
  | enqueue _ _ hphase => exact ⟨rfl, rfl, hkeep { s.worker side w with phase := .test } rfl⟩
  | wake _ _ hphase hreleased => exact ⟨rfl, rfl, hkeep _ rfl⟩
  | doze _ _ hphase hreleased =>
    exact ⟨rfl, rfl, hkeep { s.worker side w with phase := .drowsy } rfl⟩
  | sleep _ _ hphase => exact ⟨rfl, rfl, hkeep { s.worker side w with phase := .asleep } rfl⟩
  | read w b hphase hbufhdrp =>
    exact ⟨rfl, rfl, hkeep { s.worker .input w with phase := .put } rfl⟩
  | write w b hphase hbufhdrp =>
    exact ⟨rfl, rfl, hkeep { s.worker .output w with phase := .put } rfl⟩
  | put _ _ b hphase hbufhdrp =>
    obtain ⟨hworker, -, -, -, -, hinput, houtput⟩ := State.bhEnqueue_frame
      (s := s.setWorker side w { s.worker side w with phase := .start }) b
      (State.nextQueue (s.worker side w))
    refine ⟨hinput, houtput, ?_⟩
    rw [hworker]
    exact hkeep { s.worker side w with phase := .start } rfl

/-- The output target does nothing to the workers of the input target. -/
theorem Step.frame_output (h : Step s .output s') :
    s'.input = s.input ∧ s'.worker .input = s.worker .input := by
  cases h with
  | handOutput w b stage after houtput hafter =>
    cases stage <;> simp [State.hand, State.setWorker]
  | handedOutput => simp [State.hand, State.setWorker]
  | terminate => simp [State.terminateWorker, State.setWorker, State.setIdle]
  | _ => exact ⟨rfl, rfl⟩

theorem Step.frame_input (h : Step s .input s') :
    s'.output = s.output ∧ s'.worker .output = s.worker .output := by
  cases h with
  | fill => simp [State.hand, State.setHeader, State.setWorker]
  | handInput w b stage after hinput hfill hafter =>
    cases stage <;> simp [State.hand, State.setWorker]
  | handedInput => simp [State.hand, State.setWorker]
  | collectWorker => simp [State.terminateWorker, State.setWorker, State.setIdle]
  | mark w b b' hinput hbufhdrp =>
    obtain ⟨hworker, -, -, -, -, -, houtput⟩ :=
      State.bhEnqueue_frame (s := s.setHeader b { s.header b with eof := true }) b'
        (State.nextQueue (s.worker .input w))
    exact ⟨houtput, congrFun hworker .output⟩
  | _ => exact ⟨rfl, rfl⟩

theorem Placed.init (cfg : Config) : Placed (init cfg) where
  standing := by
    intro side w
    cases side <;>
      simp [State.standing, Bx.init, State.claims, Input.claims, Output.claims, Worker.busy,
        WorkerPhase.busy]
  input := nofun
  output := nofun

theorem Placed.step (hplaced : Placed s) {a : Action cfg} (h : Step s a s') : Placed s' where
  standing := fun side w => (h.standing_le side w).trans (hplaced.standing side w)
  input := by
    intro w b hrelease
    cases a with
    | input =>
      cases h with
      | fill w' b' hinput =>
        cases hrelease
        simp [State.hand, State.setWorker]
      | handInput w' b' stage after hinput hfill hafter =>
        cases hrelease
        cases stage <;> simp [Stage.after] at hfill hafter
      | _ => cases hrelease
    | output =>
      obtain ⟨hinput, hworker⟩ := h.frame_output
      rw [hworker]
      exact hplaced.input w b (hinput ▸ hrelease)
    | worker side w' =>
      obtain ⟨hinput, -, hbufhdrp⟩ := h.frame_worker
      rw [hbufhdrp]
      exact hplaced.input w b (hinput ▸ hrelease)
  output := by
    intro w b hrelease
    cases a with
    | input =>
      obtain ⟨houtput, hworker⟩ := h.frame_input
      rw [hworker]
      exact hplaced.output w b (houtput ▸ hrelease)
    | output =>
      cases h with
      | handOutput w' b' stage after houtput hafter =>
        cases hrelease
        cases stage <;> simp [Stage.after] at hafter
        simp [State.hand, State.setWorker]
      | _ => cases hrelease
    | worker side w' =>
      obtain ⟨-, houtput, hbufhdrp⟩ := h.frame_worker
      rw [hbufhdrp]
      exact hplaced.output w b (houtput ▸ hrelease)

end Xdd.Bx
